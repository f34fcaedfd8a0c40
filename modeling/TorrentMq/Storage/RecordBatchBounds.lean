import TorrentMq.Bytes.Checksum
import TorrentMq.Bytes.Cursor
import TorrentMq.Storage.RecordBatchRoundTrip

/-!
# Decoding within bounds

The decoder of record batches as it indexes its bytes, which it never does
outside of them, and the bytes of which it gives back fewer records than are
announced.
-/

set_option autoImplicit false

namespace TorrentMq.Storage

open Bytes Reader List Cursor UInt32

def readBlockAt (minimum : Int) (error : Int → BatchError) : Cursor BatchError Bytes := do
  let length ← leInt 4
  if length < minimum then fail (error length)
  else needing length.toNat (fail (error length)) (fetch length.toNat)

def readHeadersAt (i : Nat) : Nat → Nat → Cursor BatchError (List RecordHeader)
  | 0, _ => pure []
  | count + 1, h =>
    needing 4 (pure []) do
      let hkey ← readBlockAt 0 fun _ => .invalidHeaderKeyLength i h
      needing 4 (pure []) do
        let hvalue ← readBlockAt 0 fun _ => .invalidHeaderValueLength i h
        let headers ← readHeadersAt i count (h + 1)
        return ⟨hkey, hvalue⟩ :: headers

def readRecordsAt (batch : RecordBatch) : Nat → Nat → Cursor BatchError (List Record)
  | 0, _ => pure []
  | count + 1, i =>
    Cursor.needing 4 (Cursor.fail (.truncatedRecord i batch.recordCount.toInt batch.baseOffset)) do
      let recLen ← Cursor.leInt 4
      let invalid : Cursor BatchError (List Record) :=
        Cursor.fail (.invalidRecordLength recLen i batch.recordCount.toInt batch.baseOffset)
      if recLen < 0 then invalid
      else
        Cursor.needing recLen.toNat invalid <| Cursor.needing 1 (pure []) do
          let _ ← Cursor.fetch 1
          let tsDelta ← Cursor.readSvarint (.timestampDelta i)
          let offDelta ← Cursor.readSvarint (.offsetDelta i)
          Cursor.needing 4 (pure []) do
            let key ← readBlockAt (-1) fun length => .invalidKeyLength length i
            Cursor.needing 4 (pure []) do
              let value ← readBlockAt (-1) fun length => .invalidValueLength length i
              Cursor.needing 4 (pure []) do
                let headerCount ← Cursor.leInt 4
                if headerCount < 0 ∨ 1000 < headerCount then Cursor.fail (.invalidHeaderCount headerCount i)
                else
                  let headers ← readHeadersAt i headerCount.toNat 0
                  let records ← readRecordsAt batch count (i + 1)
                  return batch.recordAt i key value headers tsDelta offDelta.toInt32 :: records

def readBodyAt (baseOffset partitionLeaderEpoch : Int) (storedCrc : UInt32) : Cursor BatchError RecordBatch := do
  let attributes ← leInt 2
  let lastOffsetDelta ← leInt 4
  let baseTimestamp ← leInt 8
  let maxTimestamp ← leInt 8
  let producerId ← leInt 8
  let producerEpoch ← leInt 2
  let baseSequence ← leInt 4
  let recordCount ← leInt 4
  if recordCount < 0 ∨ 100000 < recordCount then fail (.insaneRecordCount recordCount)
  else
    let batch : RecordBatch :=
      { baseOffset
        baseTimestamp := Int64.ofInt baseTimestamp
        maxTimestamp := Int64.ofInt maxTimestamp
        lastOffsetDelta := Int32.ofInt lastOffsetDelta
        compression := .none
        attributes := Int16.ofInt attributes
        crc := storedCrc
        producerId := Int64.ofInt producerId
        producerEpoch := Int16.ofInt producerEpoch
        baseSequence := Int32.ofInt baseSequence
        recordCount := Int32.ofInt recordCount
        partitionLeaderEpoch := Int64.ofInt partitionLeaderEpoch }
    let records ← readRecordsAt batch recordCount.toNat 0
    return { batch with recordCount := Int32.ofNat records.length, records }

def deserializeAt : Cursor BatchError RecordBatch := do
  let len ← len
  if len < kMinBatchHeaderSize then fail (.tooSmall len)
  else
    let baseOffset ← leInt 8
    let batchLength ← leInt 4
    if batchLength + 12 ≠ len then fail (.lengthMismatch batchLength len)
    else
      let partitionLeaderEpoch ← leInt 4
      let magic ← leInt 1
      if magic ≠ kRecordBatchMagic then fail (.badMagic magic)
      else
        let storedCrc ← leNat 4
        let pos ← get
        let covered ← slice pos (wordSub len pos)
        if ofNat storedCrc ≠ 0 ∧ crc32c covered ≠ ofNat storedCrc then
          fail (.crcMismatch baseOffset (ofNat storedCrc) (crc32c covered))
        else readBodyAt baseOffset partitionLeaderEpoch (ofNat storedCrc)

def deserializeBatchAt (bytes : Bytes) : Except (Fault BatchError) RecordBatch :=
  (deserializeAt bytes 0).map Prod.fst

theorem follows_readBlockAt (minimum : Int) (error : Int → BatchError) :
    Cursor.Follows 4 (readBlockAt minimum error) (readBlock minimum error) := by
  refine Cursor.Follows.leInt_bind 0 fun length => ?_
  refine Cursor.Follows.ite (Cursor.Follows.fail _) ?_
  exact Cursor.Follows.needing (Cursor.Follows.fail _) (follows_fetch _)

theorem follows_readHeadersAt (i count h : Nat) :
    Cursor.Follows 0 (readHeadersAt i count h) (readHeaders i count h) := by
  induction count generalizing h with
  | zero => exact Cursor.Follows.pure []
  | succ count ih =>
    refine Cursor.Follows.needing (Cursor.Follows.pure []) ?_
    refine (follows_readBlockAt _ _).bind fun hkey => ?_
    refine Cursor.Follows.needing (Cursor.Follows.pure []) ?_
    refine (follows_readBlockAt _ _).bind fun hvalue => ?_
    exact (ih (h + 1)).bind fun headers => Cursor.Follows.pure _

theorem follows_readRecordsAt (batch : RecordBatch) (count i : Nat) :
    Cursor.Follows 0 (readRecordsAt batch count i) (readRecords batch count i) := by
  induction count generalizing i with
  | zero => exact Cursor.Follows.pure []
  | succ count ih =>
    refine Cursor.Follows.needing (Cursor.Follows.fail _) ?_
    refine Cursor.Follows.leInt_bind 0 fun recLen => ?_
    refine Cursor.Follows.ite (Cursor.Follows.fail _) ?_
    refine Cursor.Follows.needing (Cursor.Follows.fail _) ?_
    refine Cursor.Follows.weaken ?_ (Nat.zero_le _)
    refine Cursor.Follows.needing (Cursor.Follows.pure []) ?_
    refine (Cursor.follows_fetch 1).bind fun attributes => ?_
    refine (Cursor.follows_readSvarint _).bind fun tsDelta => ?_
    refine (Cursor.follows_readSvarint _).bind fun offDelta => ?_
    refine Cursor.Follows.needing (Cursor.Follows.pure []) ?_
    refine (follows_readBlockAt _ _).bind fun key => ?_
    refine Cursor.Follows.needing (Cursor.Follows.pure []) ?_
    refine (follows_readBlockAt _ _).bind fun value => ?_
    refine Cursor.Follows.needing (Cursor.Follows.pure []) ?_
    refine Cursor.Follows.leInt_bind 0 fun headerCount => ?_
    refine Cursor.Follows.ite (Cursor.Follows.fail _) ?_
    refine (follows_readHeadersAt _ _ _).bind fun headers => ?_
    exact (ih (i + 1)).bind fun records => Cursor.Follows.pure _

theorem follows_readBodyAt (baseOffset partitionLeaderEpoch : Int) (storedCrc : UInt32) :
    Cursor.Follows 40 (readBodyAt baseOffset partitionLeaderEpoch storedCrc)
      (readBody baseOffset partitionLeaderEpoch storedCrc) := by
  refine Cursor.Follows.leInt_bind 38 fun attributes => ?_
  refine Cursor.Follows.leInt_bind 34 fun lastOffsetDelta => ?_
  refine Cursor.Follows.leInt_bind 26 fun baseTimestamp => ?_
  refine Cursor.Follows.leInt_bind 18 fun maxTimestamp => ?_
  refine Cursor.Follows.leInt_bind 10 fun producerId => ?_
  refine Cursor.Follows.leInt_bind 8 fun producerEpoch => ?_
  refine Cursor.Follows.leInt_bind 4 fun baseSequence => ?_
  refine Cursor.Follows.leInt_bind 0 fun recordCount => ?_
  refine Cursor.Follows.ite (Cursor.Follows.fail _) ?_
  exact (follows_readRecordsAt _ _ _).bind fun records => Cursor.Follows.pure _

theorem map_matches {bytes rest : Bytes} {reader : BatchReader RecordBatch}
    {moved : Except (Fault BatchError) (RecordBatch × Nat)} (same : Cursor.Matches bytes (reader.run rest) moved) :
    moved.map Prod.fst = (reader.run' rest).mapError Fault.failed := by
  rw [StateT.run'_eq]
  generalize reader.run rest = read at same
  cases same with
  | error error => rfl
  | ok value inside => rfl

theorem deserializeBatchAt_eq (bytes : Bytes) :
    deserializeBatchAt bytes = (deserializeBatch bytes).mapError Fault.failed := by
  rw [deserializeBatchAt, deserializeAt, run_bind_ok (run_len bytes 0), deserializeBatch]
  by_cases small : bytes.length < kMinBatchHeaderSize
  · rw [if_pos small, if_pos small]
    rfl
  · have long : 61 ≤ bytes.length := by
      unfold kMinBatchHeaderSize at small
      omega
    rw [if_neg small, if_neg small, run_bind_ok (leInt_of_le (by omega)), drop_zero, Nat.zero_add,
      run_bind_ok (leInt_of_le (by omega))]
    have first : (readInt 8 bytes).2 = bytes.drop 8 := rfl
    have second : (readInt 4 (bytes.drop 8)).2 = bytes.drop 12 := by rw [readInt, drop_drop]
    have third : (readInt 4 (bytes.drop 12)).2 = bytes.drop 16 := by rw [readInt, drop_drop]
    have fourth : (readInt 1 (bytes.drop 16)).2 = bytes.drop 17 := by rw [readInt, drop_drop]
    have fifth : (readNat 4 (bytes.drop 17)).2 = bytes.drop 21 := by rw [readNat, drop_drop]
    dsimp only
    rw [first, second]
    by_cases mismatch : (readInt 4 (bytes.drop 8)).1 + 12 ≠ bytes.length
    · rw [if_pos mismatch, if_pos mismatch]
      rfl
    · have short : bytes.length < 2 ^ 64 := by
        have fits := fitsInt_readInt 4 (bytes.drop 8)
        unfold FitsInt at fits
        omega
      rw [if_neg mismatch, if_neg mismatch, run_bind_ok (leInt_of_le (by omega)),
        run_bind_ok (leInt_of_le (by omega)), third, fourth]
      by_cases bad : (readInt 1 (bytes.drop 16)).1 ≠ kRecordBatchMagic
      · rw [if_pos bad, if_pos bad]
        rfl
      · have covered := @slice_of_le BatchError bytes 21 (bytes.length - 21) (by omega) 21
        rw [take_of_length_le (by rw [length_drop])] at covered
        rw [if_neg bad, if_neg bad, run_bind_ok (leNat_of_le (by omega)),
          run_bind_ok (run_get bytes _), wordSub_of_le (by omega) short, run_bind_ok covered,
          fifth]
        by_cases clash : ofNat (readNat 4 (bytes.drop 17)).1 ≠ 0 ∧
            crc32c (bytes.drop 21) ≠ ofNat (readNat 4 (bytes.drop 17)).1
        · rw [if_pos clash, if_pos clash]
          rfl
        · rw [if_neg clash, if_neg clash]
          exact map_matches (follows_readBodyAt _ _ _ bytes _ short (by omega))

def afterSvarint (bytes : Bytes) : Option Bytes := (readSvarint64 bytes).map Prod.snd

def afterBlock (minimum : Int) (bytes : Bytes) : Option Bytes :=
  let (length, rest) := readInt 4 bytes
  if length < minimum then none else if rest.length < length.toNat then none else some (rest.drop length.toNat)

def afterHeaders : Nat → Bytes → Option Bytes
  | 0, bytes => some bytes
  | count + 1, bytes =>
    if bytes.length < 4 then some bytes
    else
      (afterBlock 0 bytes).bind fun value =>
        if value.length < 4 then some value else (afterBlock 0 value).bind (afterHeaders count)

def announced (bytes : Bytes) : Option Bytes :=
  if bytes.length < 4 then none
  else
    let (recLen, record) := readInt 4 bytes
    if recLen < 0 then none else if record.length < recLen.toNat then none else some record

def afterCounted (bytes : Bytes) : Option Bytes :=
  let (headerCount, rest) := readInt 4 bytes
  if headerCount < 0 ∨ 1000 < headerCount then none else afterHeaders headerCount.toNat rest

/-- So many records are announced, and the bytes end inside one of them: before its attributes, or less than a
length field before its key, its value or its headers. -/
def CutShort : Nat → Bytes → Prop
  | 0, _ => False
  | count + 1, bytes =>
    ∃ record ∈ announced bytes, record.length < 1 ∨
      ∃ more ∈ afterSvarint (record.drop 1), ∃ key ∈ afterSvarint more, key.length < 4 ∨
        ∃ value ∈ afterBlock (-1) key, value.length < 4 ∨
          ∃ headers ∈ afterBlock (-1) value, headers.length < 4 ∨
            ∃ rest ∈ afterCounted headers, CutShort count rest

def Leaves {Value : Type} (reader : BatchReader Value) (after : Bytes → Option Bytes) : Prop :=
  ∀ bytes, (∃ value rest, reader.run bytes = .ok (value, rest) ∧ after bytes = some rest) ∨
    ∃ error, reader.run bytes = .error error ∧ after bytes = none

theorem run_bind_of_ok {First Result : Type} {reader : BatchReader First} {bytes rest : Bytes} {value : First}
    (read : reader.run bytes = .ok (value, rest)) (next : First → BatchReader Result) :
    (reader >>= next).run bytes = (next value).run rest := by
  rw [StateT.run_bind, read]
  rfl

theorem run_bind_of_error {First Result : Type} {reader : BatchReader First} {bytes : Bytes} {error : BatchError}
    (read : reader.run bytes = .error error) (next : First → BatchReader Result) :
    (reader >>= next).run bytes = .error error := by
  rw [StateT.run_bind, read]
  rfl

theorem run_needing {Value : Type} (count : Nat) (otherwise next : BatchReader Value) (bytes : Bytes) :
    (Reader.needing count otherwise next).run bytes =
      if bytes.length < count then otherwise.run bytes else next.run bytes := rfl

theorem run_int (width : Nat) (bytes : Bytes) :
    (Reader.int width : BatchReader Int).run bytes = .ok ((readInt width bytes).1, (readInt width bytes).2) := rfl

theorem leaves_readSvarint (error : BatchError) : Leaves (readSvarint error) afterSvarint := by
  intro bytes
  unfold readSvarint afterSvarint
  rw [StateT.run]
  cases readSvarint64 bytes with
  | none => exact .inr ⟨error, rfl, rfl⟩
  | some read => exact .inl ⟨read.1, read.2, rfl, rfl⟩

theorem leaves_readBlock (minimum : Int) (error : Int → BatchError) :
    Leaves (readBlock minimum error) (afterBlock minimum) := by
  intro bytes
  rw [readBlock, run_bind_of_ok (run_int 4 bytes), afterBlock]
  generalize readInt 4 bytes = read
  obtain ⟨length, rest⟩ := read
  dsimp only
  by_cases refused : length < minimum
  · rw [if_pos refused, if_pos refused]
    exact .inr ⟨error length, rfl, rfl⟩
  · rw [if_neg refused, if_neg refused, run_needing]
    split
    · exact .inr ⟨error length, rfl, rfl⟩
    · exact .inl ⟨_, _, rfl, rfl⟩

theorem leaves_readHeaders (i count h : Nat) : Leaves (readHeaders i count h) (afterHeaders count) := by
  induction count generalizing h with
  | zero => exact fun bytes => .inl ⟨[], bytes, rfl, rfl⟩
  | succ count ih =>
    intro bytes
    rw [readHeaders, run_needing, afterHeaders]
    split
    · exact .inl ⟨[], bytes, rfl, rfl⟩
    rcases leaves_readBlock 0 (fun _ => .invalidHeaderKeyLength i h) bytes with
      ⟨hkey, value, read, left⟩ | ⟨error, failed, none⟩
    · rw [run_bind_of_ok read, run_needing, left, Option.bind_some]
      split
      · exact .inl ⟨[], value, rfl, rfl⟩
      rcases leaves_readBlock 0 (fun _ => .invalidHeaderValueLength i h) value with
        ⟨hvalue, more, read, left⟩ | ⟨error, failed, none⟩
      · rw [run_bind_of_ok read, left, Option.bind_some]
        rcases ih (h + 1) more with ⟨headers, rest, read, left⟩ | ⟨error, failed, none⟩
        · rw [run_bind_of_ok read, left]
          exact .inl ⟨⟨hkey, hvalue⟩ :: headers, rest, rfl, rfl⟩
        · rw [run_bind_of_error failed, none]
          exact .inr ⟨error, rfl, rfl⟩
      · rw [run_bind_of_error failed, none]
        exact .inr ⟨error, rfl, rfl⟩
    · rw [run_bind_of_error failed, none]
      exact .inr ⟨error, rfl, rfl⟩

/-- Records were read, all of them unless the bytes end too early, or the bytes were refused. -/
def ReadOutcome (count : Nat) (result : Except BatchError (List Record × Bytes)) (short : Prop) : Prop :=
  (∃ records rest, result = .ok (records, rest) ∧ records.length ≤ count ∧ (short ↔ records.length < count)) ∨
    ∃ error, result = .error error ∧ ¬short

section ReadOutcome

variable {count : Nat} {bytes : Bytes} {short : Prop} {next : BatchReader (List Record)}

section

variable {result : Except BatchError (List Record × Bytes)} (outcome : ReadOutcome count result short)

include outcome

theorem ReadOutcome.congr {other : Prop} (same : other ↔ short) : ReadOutcome count result other := by
  unfold ReadOutcome
  rw [same]
  exact outcome

theorem ReadOutcome.cons
    (record : Record) :
    ReadOutcome (count + 1) (result.map fun read => (record :: read.1, read.2)) short := by
  rcases outcome with ⟨records, rest, same, few, complete⟩ | ⟨error, same, whole⟩
  · refine .inl ⟨record :: records, rest, by rw [same]; rfl, ?_, ?_⟩
    · rw [length_cons]
      omega
    · rw [length_cons, complete]
      omega
  · exact .inr ⟨error, by rw [same]; rfl, whole⟩

end

theorem ReadOutcome.needing {width : Nat} (outcome : ¬bytes.length < width → ReadOutcome (count + 1) (next.run bytes) short) :
    ReadOutcome (count + 1) ((Reader.needing width (pure []) next).run bytes) (bytes.length < width ∨ short) := by
  rw [run_needing]
  by_cases few : bytes.length < width
  · rw [if_pos few]
    exact .inl ⟨[], bytes, rfl, Nat.zero_le _, fun _ => Nat.succ_pos count, fun _ => .inl few⟩
  · rw [if_neg few]
    exact (outcome few).congr (or_iff_right few)

theorem ReadOutcome.bind {Value : Type} {reader : BatchReader Value} {after : Bytes → Option Bytes}
    (leaves : Leaves reader after) {next : Value → BatchReader (List Record)} {short : Bytes → Prop}
    (outcome : ∀ value rest, ReadOutcome count ((next value).run rest) (short rest)) :
    ReadOutcome count ((reader >>= next).run bytes) (∃ rest ∈ after bytes, short rest) := by
  rcases leaves bytes with ⟨value, rest, read, left⟩ | ⟨error, failed, none⟩
  · rw [run_bind_of_ok read, left]
    refine (outcome value rest).congr ?_
    constructor
    · rintro ⟨_, ⟨⟩, inside⟩
      exact inside
    · exact fun inside => ⟨rest, rfl, inside⟩
  · rw [run_bind_of_error failed, none]
    refine .inr ⟨error, rfl, ?_⟩
    rintro ⟨_, ⟨⟩, -⟩

theorem run_throw {Value : Type} (error : BatchError) (bytes : Bytes) :
    (throw error : BatchReader Value).run bytes = .error error := rfl

theorem ReadOutcome.announced (truncated : BatchError) (invalid : Int → BatchError) {short : Bytes → Prop}
    (outcome : ∀ record, ReadOutcome count (next.run record) (short record)) :
    ReadOutcome count
      ((Reader.needing 4 (throw truncated) (Reader.int 4 >>= fun recLen =>
        if recLen < 0 then throw (invalid recLen)
        else Reader.needing recLen.toNat (throw (invalid recLen)) next)).run bytes)
      (∃ record ∈ announced bytes, short record) := by
  rw [run_needing, TorrentMq.Storage.announced]
  by_cases few : bytes.length < 4
  · rw [if_pos few, if_pos few, run_throw]
    refine .inr ⟨truncated, rfl, ?_⟩
    rintro ⟨_, ⟨⟩, -⟩
  rw [if_neg few, if_neg few, run_bind_of_ok (run_int 4 bytes)]
  generalize readInt 4 bytes = read
  obtain ⟨recLen, record⟩ := read
  dsimp only
  by_cases negative : recLen < 0
  · rw [if_pos negative, if_pos negative, run_throw]
    refine .inr ⟨invalid recLen, rfl, ?_⟩
    rintro ⟨_, ⟨⟩, -⟩
  rw [if_neg negative, if_neg negative, run_needing]
  by_cases beyond : record.length < recLen.toNat
  · rw [if_pos beyond, if_pos beyond, run_throw]
    refine .inr ⟨invalid recLen, rfl, ?_⟩
    rintro ⟨_, ⟨⟩, -⟩
  · rw [if_neg beyond, if_neg beyond]
    refine (outcome record).congr ?_
    constructor
    · rintro ⟨_, ⟨⟩, inside⟩
      exact inside
    · exact fun inside => ⟨record, rfl, inside⟩

theorem ReadOutcome.counted (i : Nat) (invalid : Int → BatchError) {next : List RecordHeader → BatchReader (List Record)}
    {short : Bytes → Prop} (outcome : ∀ headers rest, ReadOutcome count ((next headers).run rest) (short rest)) :
    ReadOutcome count
      (((Reader.int 4 : BatchReader Int) >>= fun headerCount =>
        if headerCount < 0 ∨ 1000 < headerCount then throw (invalid headerCount)
        else readHeaders i headerCount.toNat 0 >>= next).run bytes)
      (∃ rest ∈ afterCounted bytes, short rest) := by
  rw [run_bind_of_ok (run_int 4 bytes), afterCounted]
  generalize readInt 4 bytes = read
  obtain ⟨headerCount, headers⟩ := read
  dsimp only
  by_cases refused : headerCount < 0 ∨ 1000 < headerCount
  · rw [if_pos refused, if_pos refused, run_throw]
    refine .inr ⟨invalid headerCount, rfl, ?_⟩
    rintro ⟨_, ⟨⟩, -⟩
  · rw [if_neg refused, if_neg refused]
    exact ReadOutcome.bind (leaves_readHeaders i headerCount.toNat 0) outcome

end ReadOutcome

theorem readRecords_outcome (batch : RecordBatch) (count i : Nat) (bytes : Bytes) :
    ReadOutcome count ((readRecords batch count i).run bytes) (CutShort count bytes) := by
  induction count generalizing i bytes with
  | zero => exact .inl ⟨[], bytes, rfl, le_rfl, fun none => none.elim, fun less => absurd less (Nat.lt_irrefl 0)⟩
  | succ count ih =>
    rw [readRecords, CutShort]
    refine ReadOutcome.announced _ (fun recLen => .invalidRecordLength recLen i _ _) fun record => ?_
    refine ReadOutcome.needing fun _ => ?_
    rw [run_bind_of_ok (show (Reader.block 1 : BatchReader Bytes).run record =
      .ok (record.take 1, record.drop 1) from rfl)]
    refine ReadOutcome.bind (leaves_readSvarint _) fun tsDelta more => ?_
    refine ReadOutcome.bind (leaves_readSvarint _) fun offDelta key => ?_
    refine ReadOutcome.needing fun _ => ?_
    refine ReadOutcome.bind (leaves_readBlock _ _) fun keyBytes value => ?_
    refine ReadOutcome.needing fun _ => ?_
    refine ReadOutcome.bind (leaves_readBlock _ _) fun valueBytes headers => ?_
    refine ReadOutcome.needing fun _ => ?_
    refine ReadOutcome.counted i (fun headerCount => .invalidHeaderCount headerCount i) fun headers rest => ?_
    have cons := (ih (i + 1) rest).cons (batch.recordAt i keyBytes valueBytes headers tsDelta offDelta.toInt32)
    rw [StateT.run_bind]
    cases read : (readRecords batch count (i + 1)).run rest with
    | error error | ok pair =>
      rw [read] at cons
      exact cons

def storedCount (bytes : Bytes) : Int := (readInt 4 (bytes.drop 57)).1

structure HeaderAccepted (bytes : Bytes) : Prop where
  size : kMinBatchHeaderSize ≤ bytes.length
  length : (readInt 4 (bytes.drop 8)).1 + 12 = bytes.length
  magic : (readInt 1 (bytes.drop 16)).1 = kRecordBatchMagic
  crc : ofNat (readNat 4 (bytes.drop 17)).1 = 0 ∨
    crc32c (bytes.drop 21) = ofNat (readNat 4 (bytes.drop 17)).1
  count : 0 ≤ storedCount bytes ∧ storedCount bytes ≤ 100000

def withRecords (front : RecordBatch) (read : List Record × Bytes) : RecordBatch :=
  { front with recordCount := Int32.ofNat read.1.length, records := read.1 }

theorem run_withRecords (front : RecordBatch) (count : Nat) (bytes : Bytes) :
    Prod.fst <$> (readRecords front count 0 >>= fun records =>
      pure { front with recordCount := Int32.ofNat records.length, records }).run bytes =
    ((readRecords front count 0).run bytes).map (withRecords front) := by
  rw [StateT.run_bind]
  cases (readRecords front count 0).run bytes with
  | error error => rfl
  | ok read => rfl

theorem readInt_drop (width before : Nat) (bytes : Bytes) :
    (readInt width (bytes.drop before)).2 = bytes.drop (before + width) := by
  rw [readInt, drop_drop]

theorem readBody_run (baseOffset partitionLeaderEpoch : Int) (storedCrc : UInt32) (bytes : Bytes) :
    ∃ front, (readBody baseOffset partitionLeaderEpoch storedCrc).run' bytes =
      if (readInt 4 (bytes.drop 36)).1 < 0 ∨ 100000 < (readInt 4 (bytes.drop 36)).1 then
        .error (.insaneRecordCount (readInt 4 (bytes.drop 36)).1)
      else
        ((readRecords front (readInt 4 (bytes.drop 36)).1.toNat 0).run (bytes.drop 40)).map (withRecords front) := by
  have first : (readInt 2 bytes).2 = bytes.drop 2 := rfl
  rw [StateT.run'_eq, readBody, run_bind_of_ok (run_int 2 bytes), first]
  iterate 7 rw [run_bind_of_ok (run_int _ _), readInt_drop]
  simp only [Nat.reduceAdd]
  split
  · exact ⟨{}, rfl⟩
  · exact ⟨_, run_withRecords _ _ _⟩

theorem deserializeBatch_cases (bytes : Bytes) :
    (HeaderAccepted bytes ∧ ∃ front, deserializeBatch bytes =
        ((readRecords front (storedCount bytes).toNat 0).run (bytes.drop 61)).map (withRecords front)) ∨
      ¬HeaderAccepted bytes ∧ ∃ error, deserializeBatch bytes = .error error := by
  have first : (readInt 8 bytes).2 = bytes.drop 8 := rfl
  have fifth : (readNat 4 (bytes.drop 17)).2 = bytes.drop 21 := by rw [readNat, drop_drop]
  unfold deserializeBatch
  dsimp only
  rw [first, readInt_drop, readInt_drop, readInt_drop, fifth]
  split
  next small => exact .inr ⟨fun accepted => absurd accepted.size (by omega), _, rfl⟩
  split
  next mismatch => exact .inr ⟨fun accepted => mismatch accepted.length, _, rfl⟩
  split
  next bad => exact .inr ⟨fun accepted => bad accepted.magic, _, rfl⟩
  split
  next clash => exact .inr ⟨fun accepted => accepted.crc.elim clash.1 clash.2, _, rfl⟩
  next size length magic crc =>
    obtain ⟨front, same⟩ := readBody_run (readInt 8 bytes).1 (readInt 4 (bytes.drop 12)).1
      (ofNat (readNat 4 (bytes.drop 17)).1) (bytes.drop 21)
    rw [drop_drop, drop_drop] at same
    rw [same]
    by_cases insane : storedCount bytes < 0 ∨ 100000 < storedCount bytes
    · rw [storedCount] at insane
      rw [if_pos insane]
      exact .inr ⟨fun accepted => by have count := accepted.count; unfold storedCount at count; omega, _, rfl⟩
    · refine .inl ⟨⟨by omega, by omega, by simpa using magic, ?_, by omega⟩, front, ?_⟩
      · by_cases zero : ofNat (readNat 4 (bytes.drop 17)).1 = 0
        · exact .inl zero
        · exact .inr (not_not.mp fun clash => crc ⟨zero, clash⟩)
      · rw [storedCount] at insane
        rw [if_neg insane]
        rfl

/-- The decoder stays inside of its bytes, and gives back all of the announced records, just where an accepted batch
does not end inside one of them. -/
theorem decodesSafely_iff (bytes : Bytes) :
    ((∀ index, deserializeBatchAt bytes ≠ .error (.outOfBounds index)) ∧
      ∀ batch, deserializeBatchAt bytes = .ok batch → (batch.records.length : Int) = storedCount bytes) ↔
    ¬(HeaderAccepted bytes ∧ CutShort (storedCount bytes).toNat (bytes.drop 61)) := by
  rw [deserializeBatchAt_eq]
  have inside : ∀ index, (deserializeBatch bytes).mapError Fault.failed ≠ .error (.outOfBounds index) := by
    intro index
    cases deserializeBatch bytes with
    | error error => rintro ⟨⟩
    | ok batch => rintro ⟨⟩
  rw [and_iff_right inside]
  rcases deserializeBatch_cases bytes with ⟨accepted, front, same⟩ | ⟨refused, error, same⟩
  · rw [same, and_iff_right accepted]
    have count := accepted.count
    rcases readRecords_outcome front (storedCount bytes).toNat 0 (bytes.drop 61) with
      ⟨records, rest, read, few, short⟩ | ⟨error, failed, whole⟩
    · rw [read, short]
      constructor
      · intro complete less
        have same : (records.length : Int) = storedCount bytes := complete _ rfl
        omega
      · rintro whole batch ⟨⟩
        change (records.length : Int) = storedCount bytes
        omega
    · rw [failed]
      refine iff_of_true ?_ whole
      rintro batch ⟨⟩
  · rw [same]
    refine iff_of_true ?_ fun both => refused both.1
    rintro batch ⟨⟩

def cutBytes : Bytes :=
  List.replicate 8 0 ++ [53, 0, 0, 0] ++ List.replicate 4 0 ++ [2] ++ List.replicate 40 0 ++ [1, 0, 0, 0] ++
    List.replicate 4 0

theorem not_decodesSafely_cutBytes : ¬∀ bytes : Bytes,
    (∀ index, deserializeBatchAt bytes ≠ .error (.outOfBounds index)) ∧
      ∀ batch, deserializeBatchAt bytes = .ok batch → (batch.records.length : Int) = storedCount bytes := by
  intro claim
  have complete := (claim cutBytes).2
  rw [deserializeBatchAt_eq] at complete
  have decoded : (deserializeBatch cutBytes).map (fun batch => batch.records.length) = .ok 0 := by decide +kernel
  have stored : storedCount cutBytes = 1 := by decide +kernel
  cases read : deserializeBatch cutBytes with
  | error error =>
    rw [read] at decoded
    cases decoded
  | ok batch =>
    rw [read] at decoded complete
    have none : batch.records.length = 0 := Except.ok.inj decoded
    have one := complete batch rfl
    omega

/-- Where a checksum is stored, a change of one byte behind it is refused. -/
theorem deserializeBatch_of_corrupted {header front rest : Bytes} {left right : UInt8} {batch : RecordBatch}
    (whole : header.length = 21) (summed : ofNat (decode (header.drop 17)) ≠ 0) (different : left ≠ right)
    (accepted : deserializeBatch (header ++ (front ++ left :: rest)) = .ok batch) :
    ∃ error, deserializeBatch (header ++ (front ++ right :: rest)) = .error error := by
  have stored (block : Bytes) (sound : HeaderAccepted (header ++ block)) :
      crc32c block = ofNat (decode (header.drop 17)) := by
    have crc := sound.crc
    rw [drop_append_of_le_length (by omega), readNat_append (by rw [length_drop, whole]), drop_left' whole] at crc
    exact crc.resolve_left summed
  rcases deserializeBatch_cases (header ++ (front ++ left :: rest)) with ⟨before, -⟩ | ⟨-, error, refused⟩
  · rcases deserializeBatch_cases (header ++ (front ++ right :: rest)) with ⟨after, -⟩ | ⟨-, refused⟩
    · exact absurd ((stored _ before).trans (stored _ after).symm) (crc32c_ne_of_byte_ne front rest different)
    · exact refused
  · rw [refused] at accepted
    cases accepted

theorem deserializeBatch_of_corrupted_attributes : ∃ error,
    deserializeBatch (replicate 8 0 ++ [49, 0, 0, 0] ++ replicate 4 0 ++ [2, 221, 183, 95, 89] ++
      ([] ++ 1 :: replicate 39 0)) = .error error :=
  @deserializeBatch_of_corrupted _ [] _ 0 1 ⟨0, 0, 0, 0, .none, 0, 1499445213, 0, 0, 0, 0, 0, []⟩ rfl (by decide)
    (by decide) (by decide +kernel)

end TorrentMq.Storage
