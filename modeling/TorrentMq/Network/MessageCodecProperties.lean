import TorrentMq.Network.MessageCodec

/-! What a decoder makes of the frames of the codec, and what it leaves where it fails. -/

set_option autoImplicit false

namespace TorrentMq.Network.MessageCodec

open Bytes List Option Int16

theorem pread_field (front field rest : Bytes) {offset count : Nat} (starts : front.length = offset)
    (length : field.length = count) : pread (front ++ (field ++ rest)) offset count = field := by
  have behind := pread_append_right front (field ++ rest) 0 count
  rw [Nat.add_zero, starts] at behind
  rw [behind, ← length, pread_left]

variable {offset : Nat}

theorem readInt32At_field (front rest : Bytes) (value : Int32) (starts : front.length = offset) :
    readInt32At (front ++ (writeInt32Be value ++ rest)) offset = value := by
  have short : value.toUInt32.toNat < 256 ^ 4 := value.toUInt32.toNat_lt
  rw [readInt32At, pread_field front _ rest starts (length_writeInt32Be value), writeInt32Be,
    decodeBig_encodeBig short, UInt32.ofNat_toNat]
  exact Int32.toInt32_toUInt32 value

theorem readInt16At_field (front rest : Bytes) (value : Int16) (starts : front.length = offset) :
    readInt16At (front ++ (writeInt16Be value ++ rest)) offset = value := by
  have short : value.toUInt16.toNat < 256 ^ 2 := value.toUInt16.toNat_lt
  rw [readInt16At, pread_field front _ rest starts (length_writeInt16Be value), writeInt16Be,
    decodeBig_encodeBig short, UInt16.ofNat_toNat]
  exact toInt16_toUInt16 value

variable {data : Bytes}

theorem writeInt32Be_readInt32At (within : offset + 4 ≤ data.length) :
    writeInt32Be (readInt32At data offset) = (data.drop offset).take 4 := by
  have length : ((data.drop offset).take 4).length = 4 := by
    rw [length_take, length_drop]
    omega
  have back := encodeBig_decodeBig ((data.drop offset).take 4)
  have below := decodeBig_lt ((data.drop offset).take 4)
  rw [length] at back below
  rw [writeInt32Be, readInt32At, pread, UInt32.toUInt32_toInt32, UInt32.toNat_ofNat_of_lt' below]
  exact back

theorem pwrite_zeros (front block : Bytes) {offset zeros : Nat} (starts : front.length = offset)
    (fits : block.length ≤ zeros) : pwrite (front ++ replicate zeros 0) offset block =
      (front ++ block) ++ replicate (zeros - block.length) 0 := by
  have split : replicate zeros (0 : UInt8) =
      replicate block.length 0 ++ replicate (zeros - block.length) 0 := by
    rw [replicate_append_replicate, Nat.add_sub_cancel' fits]
  rw [split, ← starts, pwrite_append front _ _ length_replicate, append_assoc]

def writtenClientId (clientId : Bytes) : Bytes :=
  if 0 < ofNat clientId.length then clientId.take (ofNat clientId.length).toInt.toNat else []

theorem length_writtenClientId_le (clientId : Bytes) : (writtenClientId clientId).length ≤ clientId.length := by
  unfold writtenClientId
  split
  next => rw [length_take]; exact Nat.min_le_right _ _
  next => exact Nat.zero_le _

theorem encodeRequest_eq (apiKey apiVersion : Int16) (correlationId : Int32) (clientId body : Bytes)
    (small : 10 + clientId.length + body.length ≤ kMaxFrameSize) :
    encodeRequest apiKey apiVersion correlationId clientId body =
      writeInt32Be (Int32.ofNat (10 + clientId.length + body.length)) ++
        (writeInt16Be apiKey ++ (writeInt16Be apiVersion ++ (writeInt32Be correlationId ++
          (writeInt16Be (ofNat clientId.length) ++ (writtenClientId clientId ++ (body ++
            replicate (clientId.length - (writtenClientId clientId).length) 0)))))) := by
  have shorter := length_writtenClientId_le clientId
  have started : pwrite (replicate (4 + (10 + clientId.length + body.length)) 0) 0
      (writeInt32Be (Int32.ofNat (10 + clientId.length + body.length))) =
        writeInt32Be (Int32.ofNat (10 + clientId.length + body.length)) ++
          replicate (4 + (10 + clientId.length + body.length) - 4) 0 :=
    pwrite_zeros [] _ rfl (by rw [length_writeInt32Be]; omega)
  unfold encodeRequest kMinRequestHeaderSize kFrameLengthSize
  dsimp only
  rw [if_neg (Nat.not_lt.mpr small), ← writtenClientId, started,
    pwrite_zeros _ (writeInt16Be apiKey) (by simp) (by simp; omega),
    pwrite_zeros _ (writeInt16Be apiVersion) (by simp) (by simp; omega),
    pwrite_zeros _ (writeInt32Be correlationId) (by simp) (by simp; omega),
    pwrite_zeros _ (writeInt16Be _) (by simp) (by simp; omega),
    pwrite_zeros _ (writtenClientId clientId) (by simp) (by simp; omega),
    pwrite_zeros _ body (by simp; omega) (by simp; omega)]
  simp only [append_assoc, length_writeInt32Be, length_writeInt16Be]
  congr 8
  omega

theorem encodeResponse_eq (correlationId : Int32) (body : Bytes) (small : 4 + body.length ≤ kMaxFrameSize) :
    encodeResponse correlationId body =
      writeInt32Be (Int32.ofNat (4 + body.length)) ++ (writeInt32Be correlationId ++ body) := by
  have started : pwrite (replicate (4 + (4 + body.length)) 0) 0 (writeInt32Be (Int32.ofNat (4 + body.length))) =
      writeInt32Be (Int32.ofNat (4 + body.length)) ++ replicate (4 + (4 + body.length) - 4) 0 :=
    pwrite_zeros [] _ rfl (by rw [length_writeInt32Be]; omega)
  unfold encodeResponse kResponseHeaderSize kFrameLengthSize
  dsimp only
  rw [if_neg (Nat.not_lt.mpr small), started, pwrite_zeros _ (writeInt32Be correlationId) (by simp) (by simp),
    pwrite_zeros _ body (by simp) (by simp)]
  have full : 4 + (4 + body.length) - 4 - 4 - body.length = 0 := by omega
  rw [length_writeInt32Be, full, replicate_zero, append_nil, append_assoc]

theorem peekFrameSize_field {size : Nat} (large : 4 ≤ size) (small : size ≤ kMaxFrameSize) (rest : Bytes) :
    peekFrameSize (writeInt32Be (Int32.ofNat size) ++ rest) = Int32.ofNat size := by
  have size_eq : (Int32.ofNat size).toInt = size := by
    unfold kMaxFrameSize at small
    exact toInt_int32_length (by omega)
  have read := readInt32At_field [] rest (Int32.ofNat size) (show ([] : Bytes).length = 0 from rfl)
  have four : (4 : Int32).toInt = 4 := rfl
  rw [nil_append] at read
  unfold peekFrameSize kFrameLengthSize
  dsimp only
  rw [if_neg (by simp), read, if_neg, if_neg, if_neg]
  · rw [Int32.lt_iff_toInt_lt, size_eq, four]
    omega
  · rw [size_eq]
    omega
  · rw [Int32.lt_iff_toInt_lt, size_eq, Int32.toInt_zero]
    omega

def fieldsOf (data : Bytes) : RequestHeader where
  apiKey := readInt16At data 0
  apiVersion := readInt16At data 2
  correlationId := readInt32At data 4

def headerBytes (header : RequestHeader) : Bytes :=
  writeInt16Be header.apiKey ++ (writeInt16Be header.apiVersion ++ writeInt32Be header.correlationId)

variable (header : RequestHeader)

theorem length_headerBytes : (headerBytes header).length = 8 := by
  simp [headerBytes]

theorem fieldsOf_headerBytes (rest : Bytes) :
    fieldsOf (headerBytes header ++ rest) = header := by
  have key := readInt16At_field [] (writeInt16Be header.apiVersion ++ (writeInt32Be header.correlationId ++ rest))
    header.apiKey (show ([] : Bytes).length = 0 from rfl)
  have version := readInt16At_field (writeInt16Be header.apiKey) (writeInt32Be header.correlationId ++ rest)
    header.apiVersion (length_writeInt16Be _)
  have correlation := readInt32At_field (writeInt16Be header.apiKey ++ writeInt16Be header.apiVersion) rest
    header.correlationId (show _ = 4 by simp)
  simp only [nil_append, append_assoc] at key version correlation
  unfold fieldsOf headerBytes
  simp only [append_assoc]
  rw [key, version, correlation]

/-- The client id of a payload can be read and some byte follows it. -/
def NamesClient (data : Bytes) : Prop := ∃ read ∈ readCompactString data 8, 8 + read.1 < data.length

instance (data : Bytes) : Decidable (NamesClient data) :=
  inferInstanceAs (Decidable (∃ read ∈ readCompactString data 8, _))

theorem decodeRequestHeader_short (short : data.length < 10) (out : RequestHeader) :
    decodeRequestHeader data out = (none, out) := if_pos short

section

variable (long : ¬data.length < 10) (out : RequestHeader)

include long

theorem decodeRequestHeader_out :
    (decodeRequestHeader data out).2 = fieldsOf data := by
  unfold decodeRequestHeader kMinRequestHeaderSize
  rw [if_neg long]
  dsimp only
  split
  next => rfl
  next => split <;> rfl

theorem decodeRequestHeader_body : (decodeRequestHeader data out).1 =
      (readCompactString data 8).bind fun read =>
        if data.length ≤ 8 + read.1 then none else some (data.drop (8 + read.1)) := by
  unfold decodeRequestHeader kMinRequestHeaderSize
  rw [if_neg long]
  dsimp only
  cases readCompactString data 8 with
  | none => rfl
  | some read =>
    rw [bind_some]
    dsimp only
    split <;> rfl

theorem isNone_body_iff :
    (decodeRequestHeader data out).1 = none ↔ ¬NamesClient data := by
  rw [decodeRequestHeader_body long]
  unfold NamesClient
  cases readCompactString data 8 with
  | none => simp
  | some read =>
    rw [bind_some]
    split
    next short => simp [Nat.not_lt.mpr short]
    next longer => simp [Nat.lt_of_not_le longer]

end

theorem readCompactString_consumed {pos : Nat} {read : Nat × Bytes}
    (found : readCompactString data pos = some read) : read.1 ≤ 514 := by
  have limit : kMaxClientIdLength.toInt = 512 := rfl
  unfold readCompactString at found
  dsimp only at found
  split at found
  · cases found
  · split at found
    · cases found
    · split at found
      · cases found
      next allowed =>
        rw [lt_iff_toInt_lt, limit] at allowed
        split at found
        · cases found
          decide
        · split at found
          · cases found
          · cases found
            dsimp only
            omega

theorem readCompactString_written (front : Bytes) {clientId : Bytes} (short : clientId.length ≤ 512)
    (rest : Bytes) {pos : Nat} (starts : front.length = pos) :
    readCompactString (front ++ (writeInt16Be (ofNat clientId.length) ++ (clientId ++ rest))) pos =
      some (2 + clientId.length, clientId) := by
  have length : (ofNat clientId.length).toInt = clientId.length := toInt_ofNat_of_lt (by omega)
  have read := readInt16At_field front (clientId ++ rest) (ofNat clientId.length) starts
  have limit : kMaxClientIdLength.toInt = 512 := rfl
  have null : (-1 : Int16).toInt = -1 := rfl
  have present : ofNat clientId.length ≠ -1 := by
    intro same
    rw [same, null] at length
    omega
  have bytes : pread (front ++ (writeInt16Be (ofNat clientId.length) ++ (clientId ++ rest))) (pos + 2)
      clientId.length = clientId := by
    rw [← append_assoc]
    exact pread_field _ clientId rest (by simp [starts]) rfl
  unfold readCompactString
  dsimp only
  rw [read, length, Int.toNat_natCast, bytes, if_neg (by simp; omega), if_neg, if_neg, if_neg present,
    if_neg (by simp; omega)]
  · rw [lt_iff_toInt_lt, length, limit]
    omega
  · rw [lt_iff_toInt_lt, length, null]
    omega

/-- What a receiver gets from a frame of a request: its size, the header and the body. -/
def RequestRoundTrips (apiKey apiVersion : Int16) (correlationId : Int32) (clientId body : Bytes) : Prop :=
  let frame := encodeRequest apiKey apiVersion correlationId clientId body
  frame ≠ [] →
    (peekFrameSize frame).toInt = frame.length - 4 ∧
    (∀ out, decodeRequestHeader (frame.drop 4) out = (some body, ⟨apiKey, apiVersion, correlationId⟩)) ∧
    peekCorrelationId (frame.drop 4) = correlationId

/-- A client that has read the size of a response finds the request that it answers. -/
def ResponsePeeks (correlationId : Int32) (body : Bytes) : Prop :=
  let frame := encodeResponse correlationId body
  frame ≠ [] → peekCorrelationId (frame.drop 4) = correlationId

/-- A decoder that returns no view leaves the out-parameters as they were. -/
def KeepsOut (data : Bytes) (out : RequestHeader) : Prop :=
  (decodeRequestHeader data out).1 = none → (decodeRequestHeader data out).2 = out

variable {correlationId : Int32} {clientId body : Bytes}

theorem encodeRequest_large {apiKey apiVersion : Int16} (large : kMaxFrameSize < 10 + clientId.length + body.length) :
    encodeRequest apiKey apiVersion correlationId clientId body = [] := if_pos large

theorem encodeResponse_large {body : Bytes} (large : kMaxFrameSize < 4 + body.length) :
    encodeResponse correlationId body = [] := if_pos large

theorem encodeRequest_drop (apiKey apiVersion : Int16) (correlationId : Int32) (clientId body : Bytes)
    (small : 10 + clientId.length + body.length ≤ kMaxFrameSize) :
    (encodeRequest apiKey apiVersion correlationId clientId body).drop 4 =
      headerBytes ⟨apiKey, apiVersion, correlationId⟩ ++
        (writeInt16Be (ofNat clientId.length) ++ (writtenClientId clientId ++ (body ++
          replicate (clientId.length - (writtenClientId clientId).length) 0))) := by
  rw [encodeRequest_eq _ _ _ _ _ small, drop_left' (length_writeInt32Be _)]
  simp only [headerBytes, append_assoc]

theorem encodeRequest_peekFrameSize (apiKey apiVersion : Int16) (correlationId : Int32) (clientId body : Bytes)
    (small : 10 + clientId.length + body.length ≤ kMaxFrameSize) :
    (peekFrameSize (encodeRequest apiKey apiVersion correlationId clientId body)).toInt =
      (encodeRequest apiKey apiVersion correlationId clientId body).length - 4 := by
  have payload := congrArg length (encodeRequest_drop apiKey apiVersion correlationId clientId body small)
  have shorter := length_writtenClientId_le clientId
  have size := encodeRequest_eq apiKey apiVersion correlationId clientId body small
  have length : (encodeRequest apiKey apiVersion correlationId clientId body).length =
      4 + (10 + clientId.length + body.length) := by
    rw [size]
    simp
    omega
  have value : (Int32.ofNat (10 + clientId.length + body.length)).toInt = (10 + clientId.length + body.length : Nat) :=
    toInt_int32_length (by unfold kMaxFrameSize at small; omega)
  rw [length, size, peekFrameSize_field (by omega) small, value]
  omega

theorem peekCorrelationId_headerBytes (rest : Bytes) :
    peekCorrelationId (headerBytes header ++ rest) = header.correlationId := by
  have long : ¬(headerBytes header ++ rest).length < 8 := by
    rw [length_append, length_headerBytes]
    omega
  rw [peekCorrelationId, if_neg long]
  exact congrArg RequestHeader.correlationId (fieldsOf_headerBytes header rest)

theorem writtenClientId_short {clientId : Bytes} (short : clientId.length ≤ 512) :
    writtenClientId clientId = clientId := by
  have length : (ofNat clientId.length).toInt = clientId.length := toInt_ofNat_of_lt (by omega)
  unfold writtenClientId
  rw [length, Int.toNat_natCast, take_length]
  split
  next => rfl
  next empty =>
    rw [lt_iff_toInt_lt, length] at empty
    exact (eq_nil_of_length_eq_zero (by simpa using empty)).symm

theorem decodeRequestHeader_written
    (short : clientId.length ≤ 512) (some_byte : body ≠ []) (out : RequestHeader) :
    decodeRequestHeader (headerBytes header ++ (writeInt16Be (ofNat clientId.length) ++ (clientId ++ body)))
      out = (some body, header) := by
  have bytes : 0 < body.length := length_pos_iff.mpr some_byte
  have total : (headerBytes header ++ (writeInt16Be (ofNat clientId.length) ++ (clientId ++ body))).length =
      10 + clientId.length + body.length := by
    simp only [length_append, length_headerBytes, length_writeInt16Be]
    omega
  have long : ¬(headerBytes header ++ (writeInt16Be (ofNat clientId.length) ++ (clientId ++ body))).length <
      10 := by omega
  have behind : (headerBytes header ++ (writeInt16Be (ofNat clientId.length) ++ (clientId ++ body))).drop
      (8 + (2 + clientId.length)) = body := by
    rw [← append_assoc, ← append_assoc]
    exact drop_left' (by simp [length_headerBytes])
  refine Prod.ext ?_ ((decodeRequestHeader_out long out).trans (fieldsOf_headerBytes header _))
  rw [decodeRequestHeader_body long, readCompactString_written _ short body (length_headerBytes header),
    bind_some, if_neg (by rw [total]; omega), behind]

theorem decodeRequestHeader_long {apiKey apiVersion : Int16}
    (small : 10 + clientId.length + body.length ≤ kMaxFrameSize) (long : 512 < clientId.length) (out : RequestHeader) :
    (decodeRequestHeader ((encodeRequest apiKey apiVersion correlationId clientId body).drop 4) out).1 ≠
      some body := by
  have shorter := length_writtenClientId_le clientId
  have total : ((encodeRequest apiKey apiVersion correlationId clientId body).drop 4).length =
      10 + clientId.length + body.length := by
    rw [encodeRequest_drop _ _ _ _ _ small]
    simp [length_headerBytes]
    omega
  intro decoded
  rw [decodeRequestHeader_body (by omega)] at decoded
  obtain ⟨read, found, kept⟩ := bind_eq_some_iff.mp decoded
  have consumed := readCompactString_consumed found
  split at kept
  · cases kept
  · have length := congrArg length (Option.some.inj kept)
    rw [length_drop, total] at length
    omega

theorem requestRoundTrips_iff (apiKey apiVersion : Int16) (correlationId : Int32) (clientId : Bytes)
    {body : Bytes} (some_byte : body ≠ []) :
    RequestRoundTrips apiKey apiVersion correlationId clientId body ↔
      clientId.length ≤ 512 ∨ kMaxFrameSize < 10 + clientId.length + body.length := by
  by_cases small : 10 + clientId.length + body.length ≤ kMaxFrameSize
  · have framed : encodeRequest apiKey apiVersion correlationId clientId body ≠ [] := by
      intro none
      have length := congrArg length (encodeRequest_eq apiKey apiVersion correlationId clientId body small)
      rw [none] at length
      simp at length
      omega
    constructor
    · intro trips
      obtain ⟨-, decodes, -⟩ := trips framed
      by_contra neither
      rw [not_or] at neither
      exact decodeRequestHeader_long small (by omega) ⟨0, 0, 0⟩ (congrArg Prod.fst (decodes ⟨0, 0, 0⟩))
    · intro either _
      have short : clientId.length ≤ 512 := by omega
      have payload := encodeRequest_drop apiKey apiVersion correlationId clientId body small
      refine ⟨encodeRequest_peekFrameSize apiKey apiVersion correlationId clientId body small, ?_, ?_⟩
      · intro out
        rw [payload, writtenClientId_short short, Nat.sub_self, replicate_zero, append_nil]
        exact decodeRequestHeader_written ⟨apiKey, apiVersion, correlationId⟩ short some_byte out
      · rw [payload]
        exact peekCorrelationId_headerBytes _ _
  · have large : kMaxFrameSize < 10 + clientId.length + body.length := Nat.lt_of_not_le small
    refine ⟨fun _ => Or.inr large, ?_⟩
    intro _ framed
    exact absurd (encodeRequest_large large) framed

theorem responsePeeks_iff (correlationId : Int32) (body : Bytes) :
    ResponsePeeks correlationId body ↔
      kMaxFrameSize < 4 + body.length ∨
        if body.length < 4 then correlationId = -1 else body.take 4 = writeInt32Be correlationId := by
  by_cases small : 4 + body.length ≤ kMaxFrameSize
  · have payload : (encodeResponse correlationId body).drop 4 = writeInt32Be correlationId ++ body := by
      rw [encodeResponse_eq correlationId body small, drop_left' (length_writeInt32Be _)]
    have framed : encodeResponse correlationId body ≠ [] := by
      intro none
      rw [none] at payload
      have length := congrArg length payload
      simp at length
      omega
    have length : ((encodeResponse correlationId body).drop 4).length = 4 + body.length := by
      rw [payload, length_append, length_writeInt32Be]
    have meaning : ResponsePeeks correlationId body ↔
        peekCorrelationId ((encodeResponse correlationId body).drop 4) = correlationId :=
      ⟨fun peeks => peeks framed, fun same _ => same⟩
    rw [meaning, or_iff_right (Nat.not_lt.mpr small), peekCorrelationId, length]
    split
    next short =>
      rw [if_pos (by omega)]
      exact eq_comm
    next long =>
      rw [if_neg (by omega), payload]
      have split : body = body.take 4 ++ body.drop 4 := (take_append_drop 4 body).symm
      constructor
      · intro same
        rw [← same, writeInt32Be_readInt32At (by rw [length_append, length_writeInt32Be]; omega)]
        exact (congrArg (take 4) (drop_left' (length_writeInt32Be correlationId))).symm
      · intro same
        rw [split, same]
        exact readInt32At_field _ _ correlationId (length_writeInt32Be _)
  · have large : kMaxFrameSize < 4 + body.length := Nat.lt_of_not_le small
    refine ⟨fun _ => Or.inl large, ?_⟩
    intro _ framed
    exact absurd (encodeResponse_large large) framed

theorem keepsOut_iff (data : Bytes) (out : RequestHeader) :
    KeepsOut data out ↔ data.length < 10 ∨ NamesClient data ∨ fieldsOf data = out := by
  unfold KeepsOut
  by_cases short : data.length < 10
  · simp [decodeRequestHeader_short short, short]
  · rw [isNone_body_iff short, decodeRequestHeader_out short, or_iff_right short]
    exact Decidable.imp_iff_not_or.trans (or_congr_left Decidable.not_not)

/-- Exactly the frames that a receiver understands, and the failures that are clean. -/
theorem frames_roundTrip_iff (apiKey apiVersion : Int16) (correlationId : Int32) (clientId body data : Bytes)
    (out : RequestHeader) (some_byte : body ≠ []) :
    (RequestRoundTrips apiKey apiVersion correlationId clientId body ↔
      clientId.length ≤ 512 ∨ kMaxFrameSize < 10 + clientId.length + body.length) ∧
    (∀ answer : Bytes, ResponsePeeks correlationId answer ↔
      kMaxFrameSize < 4 + answer.length ∨
        if answer.length < 4 then correlationId = -1 else answer.take 4 = writeInt32Be correlationId) ∧
    (KeepsOut data out ↔ data.length < 10 ∨ NamesClient data ∨ fieldsOf data = out) :=
  ⟨requestRoundTrips_iff apiKey apiVersion correlationId clientId some_byte, responsePeeks_iff correlationId,
    keepsOut_iff data out⟩

/-- A request of one byte by client "c", and a payload that ends in its client id. -/
theorem frames_roundTrip_iff_ping :
    RequestRoundTrips 18 3 7 [99] [1] ∧ ¬ResponsePeeks 7 [1] ∧
      ¬KeepsOut [0, 18, 0, 3, 0, 0, 0, 7, 0, 9, 99] ⟨0, 0, 0⟩ := by
  obtain ⟨request, response, header⟩ :=
    frames_roundTrip_iff 18 3 7 [99] [1] [0, 18, 0, 3, 0, 0, 0, 7, 0, 9, 99] ⟨0, 0, 0⟩ (cons_ne_nil _ _)
  refine ⟨request.mpr (Or.inl (by decide)), ?_, ?_⟩
  · rw [response]
    decide
  · rw [header]
    decide

/-- A client id of 513 bytes, a response without a body, and a client id that is missing. -/
theorem frames_not_roundTrip :
    ¬RequestRoundTrips 0 0 7 (replicate 513 99) [1] ∧ ¬ResponsePeeks 7 [] ∧
      ¬KeepsOut [0, 1, 0, 0, 0, 0, 0, 7, 0, 9] ⟨0, 0, 0⟩ := by
  refine ⟨?_, ?_, ?_⟩
  · rw [requestRoundTrips_iff _ _ _ _ (cons_ne_nil _ _), length_replicate]
    decide
  · rw [responsePeeks_iff]
    decide
  · rw [keepsOut_iff]
    decide

end TorrentMq.Network.MessageCodec
