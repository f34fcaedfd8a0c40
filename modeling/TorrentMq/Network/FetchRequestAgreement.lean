import Mathlib.Control.Traversable.Basic
import TorrentMq.Network.OffsetRoundTrip

/-!
# Two parsers of fetch requests

The parser that test harnesses and other brokers use, and the requests in which
it reads what the parser of the handler reads.
-/

set_option autoImplicit false

namespace TorrentMq.Network.Offset

open Bytes Reader List

def int32At (bytes : Bytes) (pos : Nat) : Int32 := (UInt32.ofNat (decodeBig ((bytes.drop pos).take 4))).toInt32

def present {Value : Type} (width : Nat) (fallback : Value) (read : Nat → Value) : StateM Bytes Value :=
  fun bytes =>
    if bytes.length < width then (fallback, bytes) else (read (decodeBig (bytes.take width)), bytes.drop width)

abbrev FetchEntry := TopicPartition × Int64

def helperPartitions (topic : Bytes) : Nat → Bytes → List FetchEntry × Bytes
  | 0, bytes => ([], bytes)
  | count + 1, bytes =>
    if bytes.length < 4 then ([], bytes)
    else if bytes.length < 8 then ([], bytes.drop 4)
    else if bytes.length < 16 then ([], bytes.drop 8)
    else if bytes.length < 24 then ([], bytes.drop 16)
    else if bytes.length < 28 then ([], bytes.drop 24)
    else
      let (entries, rest) := helperPartitions topic count (bytes.drop 28)
      ((⟨topic, int32At bytes 0⟩, (UInt64.ofNat (decodeBig ((bytes.drop 8).take 8))).toInt64) :: entries, rest)

def helperTopics : Nat → Bytes → List FetchEntry
  | 0, _ => []
  | count + 1, bytes =>
    if bytes.length < 2 then []
    else
      let length := (UInt16.ofNat (decodeBig (bytes.take 2))).toInt16
      let named : Bool := decide (0 < length) && decide (length.toInt.toNat ≤ (bytes.drop 2).length)
      let topic := if named then (bytes.drop 2).take length.toInt.toNat else []
      let bytes := if named then (bytes.drop 2).drop length.toInt.toNat else bytes.drop 2
      if bytes.length < 4 then []
      else
        let (entries, rest) := helperPartitions topic (int32At bytes 0).toInt.toNat (bytes.drop 4)
        entries ++ helperTopics count rest

def parseFetchRequest (uninitialized : FetchRequest) (body : Bytes) : FetchRequest :=
  StateT.run' (do
    let _ ← present 4 () fun _ => ()
    let maxWaitMs ← present 4 uninitialized.maxWaitMs fun raw => (UInt32.ofNat raw).toInt32
    let minBytes ← present 4 uninitialized.minBytes fun raw => (UInt32.ofNat raw).toInt32
    let maxBytes ← present 4 uninitialized.maxBytes fun raw => (UInt32.ofNat raw).toInt32
    let isolationLevel ← present 1 uninitialized.isolationLevel fun raw => (UInt8.ofNat raw).toInt8
    let sessionId ← present 4 uninitialized.sessionId fun raw => (UInt32.ofNat raw).toInt32
    let sessionEpoch ← present 4 uninitialized.sessionEpoch fun raw => (UInt32.ofNat raw).toInt32
    let topicCount ← present 4 0 fun raw => (UInt32.ofNat raw).toInt32
    let bytes ← get
    let entries := helperTopics topicCount.toInt.toNat bytes
    return { maxWaitMs, minBytes, maxBytes, isolationLevel, sessionId, sessionEpoch
             partitions := entries.map Prod.fst, fetchOffsets := entries.map Prod.snd } : StateM Bytes FetchRequest) body

/-- Both parsers take the same session and the same partitions, each with its offset, from a body. -/
def Agrees (uninitialized : FetchRequest) (body : Bytes) (parsed : Fetch.ParsedFetch) : Prop :=
  let request := parseFetchRequest uninitialized body
  request.sessionId = parsed.sessionId ∧ request.sessionEpoch = parsed.sessionEpoch ∧
    request.partitions = (receivedFetch parsed).partitions ∧ request.fetchOffsets = (receivedFetch parsed).fetchOffsets

def WholeTopics : Nat → Bytes → Prop
  | 0, _ => True
  | count + 1, bytes =>
    let counted := bytes.drop (2 + (UInt16.ofNat (decodeBig (bytes.take 2))).toInt16.toInt.toNat)
    let records := 28 * (int32At counted 0).toInt.toNat
    4 + records ≤ counted.length ∧ WholeTopics count (counted.drop (4 + records))

def WholeRecords (body : Bytes) : Prop := WholeTopics (int32At body 25).toInt.toNat (body.drop 29)

variable {bytes rest : Bytes} {partitions : List Fetch.PerPartitionFetch}

def entry (pf : Fetch.PerPartitionFetch) : FetchEntry := (⟨pf.topicName, pf.partitionIndex⟩, pf.fetchOffset)

theorem helperPartitions_of_whole {topic : Bytes} {count : Nat}
    (read : Fetch.parsePartitions topic count bytes = (partitions, rest))
    (clean : ∀ pf ∈ partitions, pf.parseError = none) :
    (28 * count ≤ bytes.length →
      helperPartitions topic count bytes = (partitions.map entry, bytes.drop (28 * count)) ∧
        rest = bytes.drop (28 * count)) ∧
    (bytes.length < 28 * count →
      (helperPartitions topic count bytes).1.length < partitions.length ∧ rest.length < 4) := by
  induction count generalizing bytes partitions with
  | zero =>
    cases read
    exact ⟨fun _ => ⟨rfl, rfl⟩, fun short => absurd short (Nat.not_lt_zero _)⟩
  | succ count ih =>
    unfold Fetch.parsePartitions at read
    cases first : (Fetch.parsePartition { topicName := topic }).run bytes with
    | error failure =>
      rw [first] at read
      cases read
      cases clean _ mem_cons_self
    | ok result =>
      rw [first] at read
      cases later : Fetch.parsePartitions topic count result.2 with
      | mk others last =>
        dsimp only at read
        rw [later] at read
        cases read
        obtain ⟨name, taken, index, offset, whole, cut⟩ :=
          @parsePartition_ok bytes result.2 { topicName := topic } result.1 first
        have others_clean : ∀ pf ∈ others, pf.parseError = none := fun pf member =>
          clean pf (mem_cons_of_mem _ member)
        obtain ⟨all, lost⟩ := ih later others_clean
        by_cases enough : 28 ≤ bytes.length
        · rw [whole enough] at all lost
          rw [length_drop, drop_drop] at all
          rw [length_drop] at lost
          unfold helperPartitions
          rw [if_neg (by omega), if_neg (by omega), if_neg (by omega), if_neg (by omega), if_neg (by omega)]
          constructor
          · intro room
            obtain ⟨same, left⟩ := all (by omega)
            rw [same, left, map_cons, entry, name, index, offset, Nat.mul_succ, Nat.add_comm (28 * count)]
            exact ⟨rfl, rfl⟩
          · intro short
            obtain ⟨fewer, left⟩ := lost (by omega)
            exact ⟨Nat.succ_lt_succ fewer, left⟩
        · have few := cut (by omega)
          refine ⟨fun room => by omega, fun _ => ⟨?_, ?_⟩⟩
          · unfold helperPartitions
            split_ifs <;> first | exact Nat.succ_pos _ | omega
          · change last.length < 4
            have left := (parsePartitions_ok later others_clean).2
            omega

theorem parseTopic_cases (read : Fetch.parseTopic.run bytes = .ok (partitions, rest)) :
    ∃ topic count, Fetch.parsePartitions topic count.toNat
        ((bytes.drop (2 + topic.length)).drop 4) = (partitions, rest) ∧ 6 + topic.length ≤ bytes.length ∧
      (UInt16.ofNat (decodeBig (bytes.take 2))).toInt16.toInt = topic.length ∧ 0 < topic.length ∧
      topic = (bytes.drop 2).take topic.length ∧ count = (int32At (bytes.drop (2 + topic.length)) 0).toInt := by
  obtain ⟨topic, behind, named, read⟩ := run_bind_ok read
  obtain ⟨len, front, first, named⟩ := run_bind_ok named
  obtain ⟨two, value, rfl⟩ := readBig_ok first
  split at named
  · cases named
  next positive =>
    change (if _ < len.toInt.toNat then _ else _) = _ at named
    split at named
    · cases named
    next room =>
      cases named
      split at read
      · cases read
      next some_byte =>
        obtain ⟨count, last, counted, read⟩ := run_bind_ok read
        obtain ⟨four, total, rfl⟩ := readBig_ok counted
        split at read
        · cases read
        · have long : ((bytes.drop 2).take len.toInt.toNat).length = len.toInt.toNat :=
            length_take_of_le (Nat.not_lt.mp room)
          rw [Int16.lt_iff_toInt_lt, Int16.toInt_zero] at positive
          have some : 0 < ((bytes.drop 2).take len.toInt.toNat).length :=
            length_pos_iff.mpr fun none => some_byte (List.isEmpty_iff.mpr none)
          rw [length_drop] at room four
          rw [drop_drop] at total
          refine ⟨_, count.toInt, ?_, ?_, ?_, some, by rw [long], ?_⟩
          · rw [long, ← drop_drop]
            exact Except.ok.inj read
          · rw [length_drop] at four
            omega
          · rw [← value, long]
            omega
          · rw [long, total, int32At, drop_zero]

theorem helperTopics_iff {count : Nat} (read : (Fetch.parseTopics count).run bytes = .ok (partitions, rest))
    (clean : ∀ pf ∈ partitions, pf.parseError = none) :
    helperTopics count bytes = partitions.map entry ↔ WholeTopics count bytes := by
  induction count generalizing bytes partitions with
  | zero =>
    cases read
    exact ⟨fun _ => trivial, fun _ => rfl⟩
  | succ count ih =>
    obtain ⟨own, behind, first, read⟩ := run_bind_ok read
    obtain ⟨others, last, later, read⟩ := run_bind_ok read
    cases read
    obtain ⟨topic, number, read, long, length, some, same, total⟩ := parseTopic_cases first
    obtain ⟨all, lost⟩ := helperPartitions_of_whole read fun pf member => clean pf (mem_append_left _ member)
    have rest_iff := ih later fun pf member => clean pf (mem_append_right _ member)
    unfold helperTopics WholeTopics
    dsimp only
    have positive : 0 < (UInt16.ofNat (decodeBig (bytes.take 2))).toInt16 := by
      rw [Int16.lt_iff_toInt_lt, length, Int16.toInt_zero]
      omega
    rw [if_neg (by omega), length, Int.toNat_natCast, decide_eq_true positive,
      decide_eq_true (by rw [length_drop]; omega), Bool.and_true, if_pos rfl, if_pos rfl, drop_drop, ← same,
      if_neg (by rw [length_drop]; omega), ← total]
    by_cases room : 28 * number.toNat ≤ ((bytes.drop (2 + topic.length)).drop 4).length
    · obtain ⟨whole, left⟩ := all room
      rw [left, drop_drop] at rest_iff
      rw [whole, map_append, drop_drop, append_cancel_left_eq, rest_iff]
      simp only [length_drop] at room ⊢
      exact (and_iff_right (by omega)).symm
    · obtain ⟨fewer, few⟩ := lost (Nat.not_le.mp room)
      rw [length_drop] at room
      refine ⟨fun agree => ?_, fun whole => by omega⟩
      cases count with
      | zero =>
        cases later
        have lengths := congrArg List.length agree
        rw [append_nil, length_map, helperTopics, append_nil] at lengths
        omega
      | succ count =>
        obtain ⟨_, _, next, _⟩ := run_bind_ok later
        obtain ⟨_, _, _, more, _⟩ := parseTopic_cases next
        omega

theorem parseFetchRequest_eq (uninitialized : FetchRequest) (whole : 29 ≤ bytes.length) :
    let request := parseFetchRequest uninitialized bytes
    let entries := helperTopics (int32At bytes 25).toInt.toNat (bytes.drop 29)
    request.sessionId = int32At bytes 17 ∧ request.sessionEpoch = int32At bytes 21 ∧
      request.partitions = entries.map Prod.fst ∧ request.fetchOffsets = entries.map Prod.snd := by
  simp (disch := omega) only [parseFetchRequest, StateT.run', bind, StateT.bind, present, if_neg, int32At,
    length_drop, drop_drop, Nat.reduceAdd]
  exact ⟨rfl, rfl, rfl, rfl⟩

/-- Where the first parser finds no error, both agree if and only if no record is cut. -/
theorem agrees_iff {parsed : Fetch.ParsedFetch} (uninitialized : FetchRequest)
    (read : Fetch.parse bytes = .ok parsed) (clean : ∀ pf ∈ parsed.partitions, pf.parseError = none) :
    Agrees uninitialized bytes parsed ↔ WholeRecords bytes := by
  have run : ∃ rest, Fetch.parseRequest.run bytes = .ok (parsed, rest) := by
    change Prod.fst <$> Fetch.parseRequest.run bytes = _ at read
    cases done : Fetch.parseRequest.run bytes with
    | error error =>
      rw [done] at read
      cases read
    | ok outcome =>
      rw [done] at read
      cases read
      exact ⟨outcome.2, rfl⟩
  obtain ⟨rest, run⟩ := run
  obtain ⟨whole, id, epoch, topics⟩ := parseRequest_ok run
  obtain ⟨sameId, sameEpoch, entries, offsets⟩ := parseFetchRequest_eq uninitialized whole
  have same : helperTopics (int32At bytes 25).toInt.toNat (bytes.drop 29) = parsed.partitions.map entry ↔
      WholeRecords bytes := helperTopics_iff topics clean
  unfold Agrees
  dsimp only
  rw [sameId, sameEpoch, id, epoch, entries, offsets, ← same]
  have first : (parsed.partitions.map entry).map Prod.fst = (receivedFetch parsed).partitions := map_map
  have second : (parsed.partitions.map entry).map Prod.snd = (receivedFetch parsed).fetchOffsets := map_map
  constructor
  · rintro ⟨-, -, partitions, offsets⟩
    exact (zip_of_prod partitions offsets).trans (zip_of_prod first second).symm
  · intro agree
    rw [agree]
    exact ⟨rfl, rfl, first, second⟩

def fetchRecord (index offset : UInt8) : Bytes :=
  [0, 0, 0, index, 0, 0, 0, 2, 0, 0, 0, 0, 0, 0, 0, offset, 0, 0, 0, 0, 0, 0, 0, 1, 0, 0, 4, 0]

def twoTopicsBody : Bytes :=
  [0, 0, 0, 1, 0, 0, 0, 100, 0, 0, 0, 10, 0, 0, 64, 0, 1, 0, 0, 0, 7, 0, 0, 0, 3, 0, 0, 0, 2] ++
    [0, 1, 97, 0, 0, 0, 2] ++ fetchRecord 0 5 ++ fetchRecord 1 6 ++ [0, 1, 98, 0, 0, 0, 1] ++ fetchRecord 2 9

def twoTopicsParsed : Fetch.ParsedFetch where
  replicaId := 1
  maxWaitMs := 100
  minBytes := 10
  maxBytes := 16384
  isolationLevel := 1
  sessionId := 7
  sessionEpoch := 3
  partitions := [([97], 0, 5), ([97], 1, 6), ([98], 2, 9)].map fun (topicName, partitionIndex, fetchOffset) =>
    { topicName, partitionIndex, fetchOffset, logStartOffset := 1, partitionMaxBytes := 1024, currentLeaderEpoch := 2 }

theorem agrees_twoTopics : Agrees ⟨0, 0, 0, 0, 0, 0, [], []⟩ twoTopicsBody twoTopicsParsed :=
  (@agrees_iff twoTopicsBody twoTopicsParsed ⟨0, 0, 0, 0, 0, 0, [], []⟩ (by decide +kernel) (by decide)).mpr
    ⟨by decide +kernel, by decide +kernel, trivial⟩

def cutBody (bytes : Nat) : Bytes := List.replicate 28 0 ++ [1, 0, 1, 97, 0, 0, 0, 1] ++ List.replicate bytes 0

def cutParsed : Fetch.ParsedFetch where
  replicaId := 0
  maxWaitMs := 0
  minBytes := 0
  maxBytes := Fetch.kDefaultFetchMaxBytes
  isolationLevel := 0
  sessionId := 0
  sessionEpoch := 0
  partitions := [{ topicName := [97], currentLeaderEpoch := 0 }]

/-- A record without the start offset of the log is taken by one parser and left out by the other. -/
theorem not_agrees_cutBody : Fetch.parse (cutBody 20) = .ok cutParsed ∧
    (∀ pf ∈ cutParsed.partitions, pf.parseError = none) ∧
    (parseFetchRequest ⟨0, 0, 0, 0, 0, 0, [], []⟩ (cutBody 20)).partitions ≠ (receivedFetch cutParsed).partitions :=
  ⟨by decide +kernel, by decide, by decide +kernel⟩

end TorrentMq.Network.Offset
