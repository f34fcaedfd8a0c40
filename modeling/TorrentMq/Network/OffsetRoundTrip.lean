import Mathlib.Data.List.Chain
import TorrentMq.Network.FetchRequestParser
import TorrentMq.Network.GroupRoundTrip
import TorrentMq.Network.OffsetRequestParser

/-!
# Fetch and offset requests there and back

What the handlers read of the requests that the serializer has written: the
bytes that a parser takes off for each partition, against those written for it.
-/

set_option autoImplicit false

namespace TorrentMq.Network.Offset

open Bytes Reader TorrentMq.Network.Group List Nat ParsedOffsetCommitPartition

section

variable {Value : Type} {bytes rest : Bytes}

variable {width : Nat} {reader : Cursor Value} {value : Value}

theorem checked_ok {message : Bytes} (succeeded : (checked width message reader).run bytes = .ok (value, rest)) :
    width ≤ bytes.length ∧ reader.run bytes = (value, rest) := by
  change (if bytes.length < width then _ else _) = _ at succeeded
  split at succeeded
  · cases succeeded
  next enough => exact ⟨not_lt.mp enough, Except.ok.inj succeeded⟩

theorem taking_ok (succeeded : (taking reader).run bytes = .ok (value, rest)) :
    reader.run bytes = (value, rest) := Except.ok.inj succeeded

theorem run_readBigOr (width : Nat) (enough : width ≤ bytes.length) :
    (readBigOr width).run bytes = (decodeBig (bytes.take width), bytes.drop width) :=
  if_neg (not_lt.mpr enough)

theorem length_readBigOr (width : Nat) (bytes : Bytes) :
    ((readBigOr width).run bytes).2.length ≤ bytes.length := by
  change (if bytes.length < width then (0, bytes) else (_, bytes.drop width)).2.length ≤ _
  split
  · exact le_refl _
  · exact (length_drop).le.trans (sub_le _ _)

def stringCost (str : Bytes) : Nat := if str.isEmpty then 0 else 2 + str.length

theorem length_readBlock (len : Int) (bytes : Bytes) :
    ((readBlock len).run bytes).1.length + ((readBlock len).run bytes).2.length ≤ bytes.length := by
  change (if len ≤ 0 then ([], bytes) else if bytes.length < len.toNat then ([], [])
    else (bytes.take len.toNat, bytes.drop len.toNat)).1.length +
      (if len ≤ 0 then ([], bytes) else if bytes.length < len.toNat then ([], [])
        else (bytes.take len.toNat, bytes.drop len.toNat)).2.length ≤ _
  split
  · simp
  · split
    · simp
    · simp only [length_take, length_drop]
      omega

theorem stringCost_readBlock (len : Int) (bytes : Bytes) :
    stringCost ((readBlock len).run ((readBigOr 2).run bytes).2).1 +
      ((readBlock len).run ((readBigOr 2).run bytes).2).2.length ≤ bytes.length ∨
    bytes.length < 2 ∧ ((readBigOr 2).run bytes) = (0, bytes) := by
  by_cases enough : 2 ≤ bytes.length
  · left
    rw [run_readBigOr 2 enough]
    have block := length_readBlock len (bytes.drop 2)
    rw [length_drop] at block
    dsimp only
    unfold stringCost
    split <;> omega
  · exact .inr ⟨not_le.mp enough, if_pos (not_le.mp enough)⟩

theorem readString_cost (bytes : Bytes) :
    stringCost (Group.readString.run bytes).1 + (Group.readString.run bytes).2.length ≤ bytes.length := by
  rcases stringCost_readBlock (UInt16.ofNat ((readBigOr 2).run bytes).1).toInt16.toInt bytes with cost | ⟨_, nothing⟩
  · exact cost
  · change stringCost ((readBlock (UInt16.ofNat ((readBigOr 2).run bytes).1).toInt16.toInt).run
      ((readBigOr 2).run bytes).2).1 + ((readBlock (UInt16.ofNat ((readBigOr 2).run bytes).1).toInt16.toInt).run
        ((readBigOr 2).run bytes).2).2.length ≤ _
    rw [nothing]
    exact le_of_eq (zero_add _)

theorem readNullableString_cost (bytes : Bytes) :
    stringCost (Group.readNullableString.run bytes).1 + (Group.readNullableString.run bytes).2.length ≤
      bytes.length := by
  have read : Group.readNullableString.run bytes =
      if (UInt16.ofNat ((readBigOr 2).run bytes).1).toInt16 = -1 then ([], ((readBigOr 2).run bytes).2)
      else (readBlock (UInt16.ofNat ((readBigOr 2).run bytes).1).toInt16.toInt).run ((readBigOr 2).run bytes).2 := by
    unfold Group.readNullableString
    rw [StateT.run_bind]
    change (if (UInt16.ofNat ((readBigOr 2).run bytes).1).toInt16 = -1 then _ else _ : Cursor Bytes).run _ = _
    split <;> rfl
  rw [read]
  split
  · exact le_trans (le_of_eq (zero_add _)) (length_readBigOr 2 bytes)
  · exact readString_cost bytes

theorem length_checked_big {message : Bytes} {read : Nat → Value}
    (succeeded : (checked width message (readBigOr width >>= fun raw => Pure.pure (read raw))).run bytes =
      .ok (value, rest)) : width + rest.length = bytes.length := by
  obtain ⟨enough, taken⟩ := checked_ok succeeded
  have left : rest = ((readBigOr width).run bytes).2 := congrArg Prod.snd taken.symm
  rw [left, run_readBigOr width enough, length_drop]
  omega

theorem length_ifLeft {fallback value : Value} (less : ∀ bytes, (reader.run bytes).2.length ≤ bytes.length)
    (succeeded : (ifLeft width fallback reader).run bytes = .ok (value, rest)) : rest.length ≤ bytes.length := by
  change (if bytes.length < width then _ else _) = _ at succeeded
  split at succeeded
  · cases succeeded
    exact le_refl _
  · have left : rest = (reader.run bytes).2 := congrArg Prod.snd (Except.ok.inj succeeded).symm
    rw [left]
    exact less bytes

/-!
## Counted readings
-/

/-- A parser takes off at least so many bytes for each value. -/
def Takes (cost : Value → Nat) (parser : OffsetParser Value) : Prop :=
  ∀ bytes value rest, parser.run bytes = .ok (value, rest) → cost value + rest.length ≤ bytes.length

variable {parser : OffsetParser Value}

theorem Takes.times {cost : Value → Nat} (each : Takes cost parser) (count : Nat) :
    Takes (fun values => (values.map cost).sum) (Offset.times parser count) := by
  induction count with
  | zero =>
    intro bytes values rest read
    cases read
    exact le_of_eq (zero_add _)
  | succ count ih =>
    intro bytes values rest read
    obtain ⟨value, behind, first, read⟩ := run_bind_ok read
    obtain ⟨others, last, later, read⟩ := run_bind_ok read
    cases read
    have own := each bytes value behind first
    have further := ih behind others rest later
    dsimp only at further
    simp only [map_cons, sum_cons]
    omega

variable {values : List Value}

theorem forall_times {property : Value → Prop}
    (each : ∀ bytes value rest, parser.run bytes = .ok (value, rest) → property value) {count : Nat}
    (read : (Offset.times parser count).run bytes = .ok (values, rest)) :
    ∀ value ∈ values, property value := by
  induction count generalizing bytes values with
  | zero =>
    cases read
    exact fun _ member => absurd member not_mem_nil
  | succ count ih =>
    obtain ⟨value, behind, first, read⟩ := run_bind_ok read
    obtain ⟨others, last, later, read⟩ := run_bind_ok read
    cases read
    intro other member
    cases member with
    | head => exact each bytes value behind first
    | tail _ member => exact ih later other member

def Parted (topicOf : Value → Bytes) (values : List Value) : Prop :=
  values.IsChain fun value next => topicOf value ≠ topicOf next

variable {topicOf : Value → Bytes}

theorem Parted.append {values others : List Value}
    (parted : Parted topicOf (values ++ others)) : Parted topicOf values ∧ Parted topicOf others :=
  ⟨parted.left_of_append, parted.right_of_append⟩

theorem Parted.of_map {Entry : Type} {topicOf : Entry → Bytes} {view : Value → Entry}
    (parted : Parted topicOf (values.map view)) : Parted (fun value => topicOf (view value)) values :=
  (isChain_map view).mp parted

theorem Parted.length_le_one {topic : Bytes}
    (parted : Parted topicOf values) (same : ∀ value ∈ values, topicOf value = topic) : values.length ≤ 1 := by
  match values with
  | [] => exact zero_le 1
  | [_] => exact le_refl 1
  | first :: second :: values =>
    have other := (isChain_cons_cons.mp parted).1
    exact absurd ((same first (by simp)).trans (same second (by simp)).symm) other

theorem sum_concatenated_le {cost : Value → Nat} {parser : Nat → OffsetParser (List Value)}
    (each : ∀ index bytes values rest, (parser index).run bytes = .ok (values, rest) → Parted topicOf values →
      (values.map cost).sum + rest.length ≤ bytes.length) {index count : Nat}
    (read : (concatenated parser index count).run bytes = .ok (values, rest)) (parted : Parted topicOf values) :
    (values.map cost).sum + rest.length ≤ bytes.length := by
  induction count generalizing index bytes values with
  | zero =>
    cases read
    exact le_of_eq (zero_add _)
  | succ count ih =>
    obtain ⟨first, behind, own, read⟩ := run_bind_ok read
    obtain ⟨others, last, later, read⟩ := run_bind_ok read
    cases read
    obtain ⟨front, back⟩ := parted.append
    have taken := each index bytes first behind own front
    have further := ih later back
    rw [map_append, sum_append_nat]
    omega

theorem parseTopicName_ok {api topicName : Bytes} {t : Nat}
    (read : (parseTopicName api t).run bytes = .ok (topicName, rest)) :
    topicName ≠ [] ∧ 2 + topicName.length + rest.length ≤ bytes.length := by
  obtain ⟨name, behind, first, read⟩ := run_bind_ok read
  have cost := readString_cost bytes
  rw [taking_ok first] at cost
  split at read
  · cases read
  next some_byte =>
    cases read
    refine ⟨fun none => some_byte (List.isEmpty_iff.mpr none), ?_⟩
    simpa [stringCost, some_byte] using cost

variable {message : Int32 → Bytes}

theorem parseCount_ok {lowest highest count : Int32}
    (read : (parseCount lowest highest message).run bytes = .ok (count, rest)) :
    rest.length ≤ bytes.length ∧ (count ≠ 0 → 4 + rest.length = bytes.length) := by
  obtain ⟨value, behind, first, read⟩ := run_bind_ok read
  have taken := taking_ok first
  have same : value = count ∧ behind = rest := by
    split at read
    · cases read
    · cases read
      exact ⟨rfl, rfl⟩
  obtain ⟨rfl, rfl⟩ := same
  by_cases enough : 4 ≤ bytes.length
  · have left : behind = ((readBigOr 4).run bytes).2 := congrArg Prod.snd taken.symm
    rw [run_readBigOr 4 enough] at left
    rw [left, length_drop]
    omega
  · have nothing : (readBigOr 4).run bytes = (0, bytes) := if_pos (not_le.mp enough)
    have zero : value = (UInt32.ofNat ((readBigOr 4).run bytes).1).toInt32 := congrArg Prod.fst taken.symm
    have left : behind = ((readBigOr 4).run bytes).2 := congrArg Prod.snd taken.symm
    rw [nothing] at zero left
    rw [left]
    exact ⟨le_refl _, fun some_count => absurd zero some_count⟩

theorem sum_topic_le {own : Value → Nat}
    {parsePartition : Bytes → OffsetParser Value} (each : ∀ topicName, Takes own (parsePartition topicName))
    (ofTopic : ∀ topicName bytes value rest, (parsePartition topicName).run bytes = .ok (value, rest) →
      topicOf value = topicName)
    {api topicName : Bytes} {t : Nat} {lowest highest count : Int32}
    {behind last : Bytes}
    (named : (parseTopicName api t).run bytes = .ok (topicName, behind))
    (counted : (parseCount lowest highest message).run behind = .ok (count, last))
    (read : (times (parsePartition topicName) count.toInt.toNat).run last = .ok (values, rest))
    (parted : Parted topicOf values) :
    (values.map fun value => 6 + (topicOf value).length + own value).sum + rest.length ≤ bytes.length := by
  have name := (parseTopicName_ok named).2
  obtain ⟨less, number⟩ := parseCount_ok counted
  have same := forall_times (ofTopic topicName) read
  have taken := (each topicName).times _ last values rest read
  match values, parted.length_le_one same with
  | [], _ =>
    simp only [map_nil, sum_nil] at taken ⊢
    omega
  | [value], _ =>
    have some_count : count ≠ 0 := by
      rintro rfl
      cases read
    have four := number some_count
    have topic := same value (by simp)
    simp only [map_cons, map_nil, sum_cons, sum_nil] at taken ⊢
    rw [topic]
    omega

end

/-!
## Views of requests
-/

structure View (Value Entry : Type) where
  entry : Value → Entry
  cost : Value → Nat
  write : Entry → Bytes
  dear : ∀ value, (write (entry value)).length < cost value

theorem View.eq_nil {Value Entry : Type} (view : View Value Entry) {values : List Value} {rest : Bytes}
    (taken : (values.map view.cost).sum + rest.length ≤ ((values.map view.entry).flatMap view.write).length) :
    values = [] := by
  cases values with
  | nil => rfl
  | cons value values =>
    have cheaper : ∀ others : List Value,
        ((others.map view.entry).flatMap view.write).length ≤ (others.map view.cost).sum := by
      intro others
      induction others with
      | nil => exact le_refl 0
      | cons other others ih =>
        have own := view.dear other
        simp only [map_cons, flatMap_cons, length_append, sum_cons]
        omega
    have first := view.dear value
    have others := cheaper values
    simp only [map_cons, flatMap_cons, length_append, sum_cons] at taken
    omega

theorem length_writeString_le (str : Bytes) : (writeString str).length ≤ 2 + str.length := by
  unfold writeString
  dsimp only
  split
  · simp only [length_append, length_writeInt16Be, length_take]
    omega
  · simp

section

variable {bytes rest : Bytes}

theorem length_readInt32 (bytes : Bytes) : (readInt32.run bytes).2.length ≤ bytes.length :=
  length_readBigOr 4 bytes

theorem parseListOffsetsPartition_ok {topicName : Bytes} {pp : ParsedListOffsetsPartition}
    (read : (parseListOffsetsPartition topicName).run bytes = .ok (pp, rest)) :
    pp.topicName = topicName ∧ 16 + rest.length ≤ bytes.length := by
  obtain ⟨index, first, partition, read⟩ := run_bind_ok read
  obtain ⟨epoch, second, leader, read⟩ := run_bind_ok read
  obtain ⟨time, third, timestamp, read⟩ := run_bind_ok read
  obtain ⟨most, fourth, offsets, read⟩ := run_bind_ok read
  cases read
  have four := length_checked_big partition
  have eight := length_checked_big leader
  have sixteen := length_checked_big timestamp
  have optional := length_ifLeft length_readInt32 offsets
  exact ⟨rfl, by omega⟩

variable {t : Nat}

theorem parseListOffsetsTopic_le {partitions : List ParsedListOffsetsPartition}
    (read : (parseListOffsetsTopic t).run bytes = .ok (partitions, rest))
    (parted : Parted ParsedListOffsetsPartition.topicName partitions) :
    (partitions.map fun pp => 6 + pp.topicName.length + 16).sum + rest.length ≤ bytes.length := by
  obtain ⟨topicName, behind, named, read⟩ := run_bind_ok read
  obtain ⟨count, last, counted, read⟩ := run_bind_ok read
  have each (topicName : Bytes) : Takes (fun _ => 16) (parseListOffsetsPartition topicName) :=
    fun _ _ _ one => (parseListOffsetsPartition_ok one).2
  exact sum_topic_le each (fun _ _ _ _ one => (parseListOffsetsPartition_ok one).1) named counted read parted

def listOffsetsView : View ParsedListOffsetsPartition (TopicPartition × Int64) where
  entry pp := ({ topic := pp.topicName, partition := pp.partitionIndex }, pp.timestamp)
  cost pp := 6 + pp.topicName.length + 16
  write := serializeListOffsetsPartition
  dear pp := by
    have name := length_writeString_le pp.topicName
    simp only [serializeListOffsetsPartition, length_append, length_writeInt32Be, length_writeInt64Be]
    omega

theorem parseOffsetCommitPartition_ok {topicName : Bytes} {pp : ParsedOffsetCommitPartition}
    (read : (parseOffsetCommitPartition topicName).run bytes = .ok (pp, rest)) :
    pp.topicName = topicName ∧ 12 + pp.committedMetadata.length + rest.length ≤ bytes.length := by
  obtain ⟨index, first, partition, read⟩ := run_bind_ok read
  obtain ⟨offset, second, committed, read⟩ := run_bind_ok read
  obtain ⟨epoch, third, leader, read⟩ := run_bind_ok read
  obtain ⟨metadata, fourth, read_metadata, read⟩ := run_bind_ok read
  cases read
  have four := length_checked_big partition
  have eight := length_checked_big committed
  have optional := length_ifLeft length_readInt32 leader
  have own : metadata.length + rest.length ≤ third.length := by
    change (if third.length < 2 then _ else _) = _ at read_metadata
    split at read_metadata
    · cases read_metadata
      exact le_of_eq (zero_add _)
    · have cost := readNullableString_cost third
      rw [Except.ok.inj read_metadata] at cost
      dsimp only [stringCost] at cost
      split at cost
      next none =>
        rw [List.isEmpty_iff.mp none]
        exact cost
      · omega
  exact ⟨rfl, by dsimp only; omega⟩

theorem parseOffsetCommitTopic_le {partitions : List ParsedOffsetCommitPartition}
    (read : (parseOffsetCommitTopic t).run bytes = .ok (partitions, rest))
    (parted : Parted topicName partitions) :
    (partitions.map fun pp => 6 + pp.topicName.length + (12 + pp.committedMetadata.length)).sum + rest.length ≤
      bytes.length := by
  obtain ⟨topicName, behind, named, read⟩ := run_bind_ok read
  obtain ⟨count, last, counted, read⟩ := run_bind_ok read
  have each (topicName : Bytes) : Takes (fun pp : ParsedOffsetCommitPartition => 12 + pp.committedMetadata.length)
      (parseOffsetCommitPartition topicName) :=
    fun _ _ _ one => (parseOffsetCommitPartition_ok one).2
  exact sum_topic_le each (fun _ _ _ _ one => (parseOffsetCommitPartition_ok one).1) named counted read parted

def offsetCommitView : View ParsedOffsetCommitPartition ((TopicPartition × Int64) × Bytes) where
  entry pp := (({ topic := pp.topicName, partition := pp.partitionIndex }, pp.committedOffset), pp.committedMetadata)
  cost pp := 6 + pp.topicName.length + (12 + pp.committedMetadata.length)
  write := serializeOffsetCommitPartition
  dear pp := by
    have name := length_writeString_le pp.topicName
    have metadata := length_writeString_le pp.committedMetadata
    simp only [serializeOffsetCommitPartition, length_append, length_writeInt32Be, length_writeInt64Be]
    omega

theorem reads_taking {Value : Type} {reader : Cursor Value} {written : Bytes} {value : Value}
    (read : Reads reader written value) : Reads (taking reader) written value :=
  fun rest => congrArg Except.ok (read rest)

theorem run_parseTopicName {topic api : Bytes} (some_byte : topic ≠ []) (short : topic.length < 32768)
    (rest : Bytes) : (parseTopicName api t).run (writeString topic ++ rest) = .ok (topic, rest) := by
  have there : ¬topic.isEmpty = true := fun none => some_byte (List.isEmpty_iff.mp none)
  unfold parseTopicName
  rw [(reads_taking (reads_readString short)).run_bind, if_neg there]
  rfl

theorem run_parseCount {lowest highest count : Int32} {message : Int32 → Bytes} (rest : Bytes) :
    (parseCount lowest highest message).run (writeInt32Be count ++ rest) =
      if count < lowest ∨ highest < count then .error (message count) else .ok (count, rest) := by
  unfold parseCount
  rw [(reads_taking (reads_readInt32 count)).run_bind]
  split <;> rfl

section

variable {name : Bytes} (some_byte : name ≠ []) (short : name.length < 32768)

include some_byte short

theorem large_name
    (enough : 2 ≤ (name ++ rest).length) :
    4 ≤ (writeString name ++ rest).length ∧
      65536 ≤ (UInt32.ofNat (decodeBig ((writeString name ++ rest).take 4))).toInt32.toInt := by
  obtain ⟨low, below, value⟩ := decodeBig_length_and_two short enough
  have positive : 0 < name.length := length_pos_iff.mpr some_byte
  rw [writeString_eq short, append_assoc, value]
  refine ⟨by rw [length_append, length_writeInt16Be]; omega, ?_⟩
  change 65536 ≤ (Int32.ofNat (name.length * 65536 + low)).toInt
  rw [toInt_int32_length (by omega)]
  omega

theorem large_readInt32
    (enough : 2 ≤ (name ++ rest).length) : 10000 < (readInt32.run (writeString name ++ rest)).1 := by
  obtain ⟨four, large⟩ := large_name some_byte short enough
  have number : (readInt32.run (writeString name ++ rest)).1 =
      (UInt32.ofNat (decodeBig ((writeString name ++ rest).take 4))).toInt32 := by
    change (UInt32.ofNat ((readBigOr 4).run _).1).toInt32 = _
    rw [run_readBigOr 4 four]
  rw [number, Int32.lt_iff_toInt_lt]
  exact Int.lt_of_lt_of_le (by decide) large

end

theorem parseOffsetFetchTopics_large {partitions : List TopicPartition}
    (listed : ∀ entry ∈ partitions, entry.topic ≠ [] ∧ entry.topic.length < 32768 ∧ 0 ≤ entry.partition)
    {index : Nat} {values : List ParsedOffsetFetchPartition}
    (read : (concatenated parseOffsetFetchTopic index partitions.length).run
      (partitions.flatMap serializeOffsetFetchPartition) = .ok (values, rest)) :
    ∀ value, values.head? = some value → 10000 < value.partitionIndex := by
  induction partitions generalizing index values with
  | nil =>
    cases read
    exact fun _ none => nomatch none
  | cons entry partitions ih =>
    obtain ⟨some_byte, short, positive⟩ := listed entry mem_cons_self
    have others := fun other member => listed other (mem_cons_of_mem entry member)
    obtain ⟨first, behind, topic, read⟩ := run_bind_ok read
    obtain ⟨further, last, later, read⟩ := run_bind_ok read
    cases read
    obtain ⟨name, counts, named, topic⟩ := run_bind_ok topic
    rw [flatMap_cons, serializeOffsetFetchPartition, append_assoc, run_parseTopicName some_byte short]
      at named
    cases named
    obtain ⟨count, entries, counted, topic⟩ := run_bind_ok topic
    rw [run_parseCount] at counted
    split at counted
    · cases counted
    next bounds =>
      cases counted
      have counts : entry.partition ≠ -1 := by
        intro all
        rw [all] at positive
        exact absurd positive (by decide)
      rw [if_neg counts] at topic
      cases number : entry.partition.toInt.toNat with
      | zero =>
        rw [number] at topic
        cases topic
        exact ih others later
      | succ more =>
        rw [number] at topic
        obtain ⟨pp, behind_one, one, topic⟩ := run_bind_ok topic
        obtain ⟨pps, behind_all, all, topic⟩ := run_bind_ok topic
        cases topic
        obtain ⟨partitionIndex, left, index, one⟩ := run_bind_ok one
        cases one
        obtain ⟨enough, taken⟩ := checked_ok index
        rintro value head
        cases head
        cases partitions with
        | nil => exact absurd enough (by decide)
        | cons second partitions =>
          obtain ⟨some_second, short_second, _⟩ := others second mem_cons_self
          have bytes : ((second :: partitions).flatMap serializeOffsetFetchPartition) =
              writeString second.topic ++ (writeInt32Be second.partition ++
                partitions.flatMap serializeOffsetFetchPartition) := by
            simp [serializeOffsetFetchPartition]
          have two : 2 ≤ (second.topic ++ (writeInt32Be second.partition ++
              partitions.flatMap serializeOffsetFetchPartition)).length := by
            simp only [length_append, length_writeInt32Be]
            omega
          have large := large_readInt32 some_second short_second two
          rw [← bytes, taken] at large
          exact large

end

section

variable {Error Value : Type} {bytes rest : Bytes}

variable {width : Nat}

variable {otherwise : Bytes → Error} {value : Value}

theorem readBig_ok {read : Nat → Value}
    (succeeded : (readBig otherwise width >>= fun raw => Pure.pure (read raw)).run bytes = .ok (value, rest)) :
    width ≤ bytes.length ∧ value = read (decodeBig (bytes.take width)) ∧ rest = bytes.drop width := by
  obtain ⟨raw, behind, first, last⟩ := run_bind_ok succeeded
  cases last
  change (if bytes.length < width then _ else _) = _ at first
  split at first
  · cases first
  next enough =>
    cases first
    exact ⟨not_lt.mp enough, rfl, rfl⟩

theorem optionally_ok {fallback : Value} {reader : StateT Bytes (Except Error) Value}
    (enough : width ≤ bytes.length)
    (succeeded : (Fetch.optionally width fallback reader).run bytes = .ok (value, rest)) :
    reader.run bytes = .ok (value, rest) := by
  change (if bytes.length < width then _ else _) = _ at succeeded
  rwa [if_neg (not_lt.mpr enough)] at succeeded

theorem length_optionally_le {fallback : Value} {read : Nat → Value}
    (succeeded : (Fetch.optionally width fallback
      (readBig otherwise width >>= fun raw => Pure.pure (read raw))).run bytes = .ok (value, rest)) :
    rest.length ≤ bytes.length ∧ (width ≤ bytes.length → rest = bytes.drop width) := by
  by_cases enough : width ≤ bytes.length
  · obtain ⟨_, _, left⟩ := readBig_ok (optionally_ok enough succeeded)
    rw [left, length_drop]
    exact ⟨sub_le _ _, fun _ => rfl⟩
  · change (if bytes.length < width then _ else _) = _ at succeeded
    rw [if_pos (not_le.mp enough)] at succeeded
    cases succeeded
    exact ⟨le_refl _, fun there => absurd there enough⟩

theorem parsePartition_ok {pf parsed : Fetch.PerPartitionFetch}
    (read : (Fetch.parsePartition pf).run bytes = .ok (parsed, rest)) :
    parsed.topicName = pf.topicName ∧ 20 + rest.length ≤ bytes.length ∧
      parsed.partitionIndex = (UInt32.ofNat (decodeBig (bytes.take 4))).toInt32 ∧
      parsed.fetchOffset = (UInt64.ofNat (decodeBig ((bytes.drop 8).take 8))).toInt64 ∧
      (28 ≤ bytes.length → rest = bytes.drop 28) ∧ (bytes.length < 28 → rest.length < 4) := by
  obtain ⟨partitionIndex, first, index, read⟩ := run_bind_ok read
  obtain ⟨four, index_value, rfl⟩ := readBig_ok index
  split at read
  · cases read
  · obtain ⟨epoch, second, leader, read⟩ := run_bind_ok read
    obtain ⟨fetchOffset, third, offset, read⟩ := run_bind_ok read
    obtain ⟨logStartOffset, fourth, start, read⟩ := run_bind_ok read
    obtain ⟨maxBytes, last, most, read⟩ := run_bind_ok read
    obtain ⟨eight, offset_value, rfl⟩ := readBig_ok offset
    have epoch_there := (length_optionally_le leader).1
    cases (length_optionally_le leader).2 (by omega)
    obtain ⟨less, start_there⟩ := length_optionally_le start
    obtain ⟨last_four, -, rfl⟩ := readBig_ok most
    cases read
    simp only [drop_drop, length_drop, reduceAdd] at *
    refine ⟨trivial, by omega, index_value, offset_value, fun whole => ?_, fun short => ?_⟩
    · rw [start_there (by omega), drop_drop]
    · by_cases there : 8 ≤ bytes.length - 16
      · have last := congrArg List.length (start_there there)
        rw [length_drop] at last
        omega
      · omega

variable {partitions : List Fetch.PerPartitionFetch}

theorem parsePartitions_ok {topicName : Bytes} {count : Nat}
    (read : Fetch.parsePartitions topicName count bytes = (partitions, rest))
    (clean : ∀ pf ∈ partitions, pf.parseError = none) :
    (∀ pf ∈ partitions, pf.topicName = topicName) ∧ 20 * partitions.length + rest.length ≤ bytes.length := by
  induction count generalizing bytes partitions with
  | zero =>
    cases read
    exact ⟨fun _ none => absurd none not_mem_nil, le_of_eq (by simp)⟩
  | succ count ih =>
    unfold Fetch.parsePartitions at read
    cases first : (Fetch.parsePartition { topicName }).run bytes with
    | error failure =>
      rw [first] at read
      cases read
      exact nomatch clean _ mem_cons_self
    | ok result =>
      rw [first] at read
      cases later : Fetch.parsePartitions topicName count result.2 with
      | mk others last =>
        dsimp only at read
        rw [later] at read
        cases read
        obtain ⟨topic, taken, -⟩ := @parsePartition_ok bytes result.2 { topicName } result.1 first
        obtain ⟨topics, further⟩ := ih later fun pf member => clean pf (mem_cons_of_mem _ member)
        refine ⟨fun pf member => ?_, ?_⟩
        · cases member with
          | head => exact topic
          | tail _ member => exact topics pf member
        · dsimp only at further ⊢
          rw [length_cons]
          omega

theorem readTopicName_ok {topicName : Bytes} (read : Fetch.readTopicName.run bytes = .ok (topicName, rest)) :
    2 + topicName.length + rest.length ≤ bytes.length := by
  obtain ⟨len, behind, first, read⟩ := run_bind_ok read
  obtain ⟨two, _, left⟩ := readBig_ok first
  split at read
  · cases read
  · change (if behind.length < len.toInt.toNat then _ else _) = _ at read
    split at read
    · cases read
    · cases read
      have lengths := congrArg List.length left
      rw [length_drop] at lengths
      simp only [length_take, length_drop]
      omega

theorem parseTopic_ok (read : Fetch.parseTopic.run bytes = .ok (partitions, rest))
    (clean : ∀ pf ∈ partitions, pf.parseError = none) (parted : Parted Fetch.PerPartitionFetch.topicName partitions) :
    7 + (partitions.map fun pf => 19 + pf.topicName.length).sum + rest.length ≤ bytes.length := by
  obtain ⟨topicName, behind, named, read⟩ := run_bind_ok read
  have name := readTopicName_ok named
  split at read
  · cases read
  next some_byte =>
    obtain ⟨count, last, counted, read⟩ := run_bind_ok read
    obtain ⟨four, _, left⟩ := readBig_ok counted
    have lengths := congrArg List.length left
    rw [length_drop] at lengths
    have positive : 0 < topicName.length := by
      rw [length_pos_iff]
      exact fun none => some_byte (List.isEmpty_iff.mpr none)
    split at read
    · cases read
    · obtain ⟨topics, taken⟩ := parsePartitions_ok (Except.ok.inj read) clean
      match partitions, parted.length_le_one topics with
      | [], _ =>
        simp only [map_nil, sum_nil, length_nil] at taken ⊢
        omega
      | [pf], _ =>
        have topic := topics pf (by simp)
        simp only [map_cons, map_nil, sum_cons, sum_nil, length_singleton] at taken ⊢
        rw [topic]
        omega

theorem parseTopics_ok {count : Nat} (read : (Fetch.parseTopics count).run bytes = .ok (partitions, rest))
    (clean : ∀ pf ∈ partitions, pf.parseError = none) (parted : Parted Fetch.PerPartitionFetch.topicName partitions) :
    7 * count + (partitions.map fun pf => 19 + pf.topicName.length).sum + rest.length ≤ bytes.length := by
  induction count generalizing bytes partitions with
  | zero =>
    cases read
    simp
  | succ count ih =>
    obtain ⟨first, behind, own, read⟩ := run_bind_ok read
    obtain ⟨others, last, later, read⟩ := run_bind_ok read
    cases read
    obtain ⟨front, back⟩ := parted.append
    have taken := parseTopic_ok own (fun pf member => clean pf (mem_append_left _ member)) front
    have further := ih later (fun pf member => clean pf (mem_append_right _ member)) back
    rw [map_append, sum_append_nat]
    omega

theorem parseRequest_ok {parsed : Fetch.ParsedFetch} (read : Fetch.parseRequest.run bytes = .ok (parsed, rest)) :
    29 ≤ bytes.length ∧ parsed.sessionId = (UInt32.ofNat (decodeBig ((bytes.drop 17).take 4))).toInt32 ∧
      parsed.sessionEpoch = (UInt32.ofNat (decodeBig ((bytes.drop 21).take 4))).toInt32 ∧
      (Fetch.parseTopics (UInt32.ofNat (decodeBig ((bytes.drop 25).take 4))).toInt32.toInt.toNat).run (bytes.drop 29) =
        .ok (parsed.partitions, rest) := by
  obtain ⟨replicaId, first, replica, read⟩ := run_bind_ok read
  obtain ⟨maxWaitMs, second, wait, read⟩ := run_bind_ok read
  obtain ⟨minBytes, third, least, read⟩ := run_bind_ok read
  obtain ⟨maxBytes, fourth, most, read⟩ := run_bind_ok read
  obtain ⟨session, fifth, sessions, read⟩ := run_bind_ok read
  obtain ⟨isolation, sixth, isolated, sessions⟩ := run_bind_ok sessions
  obtain ⟨sessionId, seventh, identified, sessions⟩ := run_bind_ok sessions
  obtain ⟨sessionEpoch, eighth, epoch, sessions⟩ := run_bind_ok sessions
  obtain ⟨count, ninth, counted, read⟩ := run_bind_ok read
  cases sessions
  obtain ⟨_, _, rfl⟩ := readBig_ok replica
  obtain ⟨_, _, rfl⟩ := readBig_ok wait
  obtain ⟨_, _, rfl⟩ := readBig_ok least
  obtain ⟨_, _, rfl⟩ := readBig_ok isolated
  -- The count takes four bytes, so that there were as many for every field before it that may be missing.
  obtain ⟨four, rfl, rfl⟩ := readBig_ok counted
  have epoch_there : 4 ≤ seventh.length := four.trans (length_optionally_le epoch).1
  obtain ⟨_, epoch_value, rfl⟩ := readBig_ok (optionally_ok epoch_there epoch)
  have id_there := epoch_there.trans (length_optionally_le identified).1
  obtain ⟨_, id_value, rfl⟩ := readBig_ok (optionally_ok id_there identified)
  have most_there : 4 ≤ _ := (id_there.trans (by simp)).trans (length_optionally_le most).1
  obtain ⟨_, _, rfl⟩ := readBig_ok (optionally_ok most_there most)
  simp only [drop_drop, length_drop, reduceAdd] at four id_value epoch_value read
  split at read
  · cases read
  · obtain ⟨partitions, last, topics, read⟩ := run_bind_ok read
    cases read
    exact ⟨by omega, id_value, epoch_value, topics⟩

end

/-!
## Round trips
-/

inductive OffsetRequest where
  | fetch (req : FetchRequest)
  | listOffsets (req : ListOffsetsRequest)
  | offsetCommit (req : OffsetCommitRequest)
  | offsetFetch (req : OffsetFetchRequest)

def receivedFetch (parsed : Fetch.ParsedFetch) : FetchRequest where
  maxWaitMs := parsed.maxWaitMs
  minBytes := parsed.minBytes
  maxBytes := parsed.maxBytes
  isolationLevel := parsed.isolationLevel
  sessionId := parsed.sessionId
  sessionEpoch := parsed.sessionEpoch
  partitions := parsed.partitions.map fun pf => { topic := pf.topicName, partition := pf.partitionIndex }
  fetchOffsets := parsed.partitions.map Fetch.PerPartitionFetch.fetchOffset

def receivedListOffsets (parsed : ParsedListOffsetsRequest) : ListOffsetsRequest where
  replicaId := parsed.replicaId
  isolationLevel := parsed.isolationLevel
  partitions := parsed.partitions.map fun pp => { topic := pp.topicName, partition := pp.partitionIndex }
  timestamps := parsed.partitions.map ParsedListOffsetsPartition.timestamp

def receivedOffsetCommit (parsed : ParsedOffsetCommitRequest) : OffsetCommitRequest where
  groupId := parsed.groupId
  generationId := parsed.generationId
  memberId := parsed.memberId
  groupInstanceId := parsed.groupInstanceId
  retentionMs := parsed.retentionTimeMs
  partitions := parsed.partitions.map fun pp => { topic := pp.topicName, partition := pp.partitionIndex }
  offsets := parsed.partitions.map committedOffset
  metadata := parsed.partitions.map committedMetadata

def receivedOffsetFetch (parsed : ParsedOffsetFetchRequest) : OffsetFetchRequest where
  groupId := parsed.groupId
  partitions := parsed.partitions.map fun pp => { topic := pp.topicName, partition := pp.partitionIndex }

def ListsPartitions (partitions : List TopicPartition) : Prop :=
  partitions.length ≤ 1000 ∧
    ∀ entry ∈ partitions, entry.topic ≠ [] ∧ entry.topic.length < 32768 ∧ 0 ≤ entry.partition

instance (partitions : List TopicPartition) : Decidable (ListsPartitions partitions) :=
  inferInstanceAs (Decidable (_ ∧ _))

def ListsIsolation (isolationLevel : Int8) : Prop := isolationLevel = 0 ∨ isolationLevel = 1

instance (isolationLevel : Int8) : Decidable (ListsIsolation isolationLevel) := inferInstanceAs (Decidable (_ ∨ _))

def NamesGroup (groupId : Bytes) : Prop := groupId ≠ [] ∧ groupId.length ≤ kMaxGroupIdLength

instance (groupId : Bytes) : Decidable (NamesGroup groupId) := inferInstanceAs (Decidable (_ ∧ _))

namespace OffsetRequest

def partitions : OffsetRequest → List TopicPartition
  | fetch req | listOffsets req | offsetCommit req | offsetFetch req => req.partitions

def Sized (request : OffsetRequest) : Prop :=
  ListsPartitions request.partitions ∧
    match request with
    | fetch req =>
      ListsIsolation req.isolationLevel ∧ req.fetchOffsets.length = req.partitions.length ∧
        (0 ≤ req.maxWaitMs ∧ req.maxWaitMs ≤ 60000) ∧ 0 ≤ req.minBytes ∧
        (0 < req.maxBytes ∧ req.maxBytes ≤ 100 * 1024 * 1024)
    | listOffsets req => ListsIsolation req.isolationLevel ∧ req.timestamps.length = req.partitions.length
    | offsetCommit req =>
      NamesGroup req.groupId ∧ (req.memberId ≠ [] ∧ req.memberId.length < 32768) ∧
        req.groupInstanceId.length < 32768 ∧ req.offsets.length = req.partitions.length ∧
        req.metadata.length = req.partitions.length ∧ ∀ text ∈ req.metadata, text.length ≤ kMaxCommitMetadataBytes
    | offsetFetch req => NamesGroup req.groupId

def RoundTrips : OffsetRequest → Prop
  | fetch req => ∃ parsed, Fetch.parse (serializeFetchRequest req) = .ok parsed ∧ receivedFetch parsed = req ∧
      ∀ pf ∈ parsed.partitions, pf.parseError = none
  | listOffsets req => ∃ parsed, parseListOffsetsRequest (serializeListOffsetsRequest req) = .ok parsed ∧
      receivedListOffsets parsed = req
  | offsetCommit req => ∃ parsed, parseOffsetCommitRequest (serializeOffsetCommitRequest req) = .ok parsed ∧
      receivedOffsetCommit parsed = req ∧ ∀ pp ∈ parsed.partitions, pp.parseError = none
  | offsetFetch req => ∃ parsed, parseOffsetFetchRequest (serializeOffsetFetchRequest req) = .ok parsed ∧
      receivedOffsetFetch parsed = req

def Agrees : OffsetRequest → Prop
  | fetch _ => False
  | request => request.partitions = []

def Telling : OffsetRequest → Prop
  | offsetFetch _ => True
  | request => Parted TopicPartition.topic request.partitions

end OffsetRequest

section

variable {State Error Value : Type}

variable {value : Value}

variable {reader : StateT State (Except Error) Value}

theorem run'_ok {state : State}
    (succeeded : reader.run' state = .ok value) : ∃ last, reader.run state = .ok (value, last) := by
  unfold StateT.run' at succeeded
  cases read : reader.run state with
  | error error =>
    change (Prod.fst <$> reader.run state) = _ at succeeded
    rw [read] at succeeded
    cases succeeded
  | ok outcome =>
    change (Prod.fst <$> reader.run state) = _ at succeeded
    rw [read] at succeeded
    cases succeeded
    exact ⟨outcome.2, rfl⟩

theorem run'_of_run {state last : State}
    (read : reader.run state = .ok (value, last)) : reader.run' state = .ok value := by
  change Prod.fst <$> reader.run state = _
  rw [read]
  rfl

theorem besides_map {Item Left Right : Type} (fallback : Right) (left : Item → Left) (right : Item → Right)
    (items : List Item) :
    besides fallback (items.map left) (items.map right) = items.map fun item => (left item, right item) := by
  induction items with
  | nil => rfl
  | cons item items ih => simp [besides, ih]

theorem besides_nil {Item : Type} (fallback : Value) (values : List Value) :
    besides fallback ([] : List Item) values = [] := by
  cases values <;> rfl

theorem reads_checked {width : Nat} (message : Bytes) {reader : Cursor Value} {written : Bytes}
    (enough : width ≤ written.length) (read : Reads reader written value) :
    Reads (checked width message reader) written value :=
  Reads.needing _ (reads_taking read) enough

theorem reads_readInt8Or (value : Int8) : Reads readInt8Or (writeInt8 value) value := by
  have short : value.toUInt8.toNat < 256 ^ 1 := value.toUInt8.toNat_lt
  have read := @Reads.map _ _ _ _ _ _ (fun raw => (UInt8.ofNat raw).toInt8) _ _ (reads_bigOr short)
  rwa [UInt8.ofNat_toNat, Int8.toInt8_toUInt8] at read

theorem reads_readInt64 (value : Int64) : Reads readInt64 (writeInt64Be value) value := by
  have short : value.toUInt64.toNat < 256 ^ 8 := value.toUInt64.toNat_lt
  have read := @Reads.map _ _ _ _ _ _ (fun raw => (UInt64.ofNat raw).toInt64) _ _ (reads_bigOr short)
  rwa [UInt64.ofNat_toNat, Int64.toInt64_toUInt64] at read

theorem reads_ifLeft {width : Nat} (fallback : Value) {reader : Cursor Value} {written : Bytes}
    (enough : width ≤ written.length) (read : Reads reader written value) :
    Reads (ifLeft width fallback reader) written value := by
  intro rest
  have there : ¬(written ++ rest).length < width := by
    rw [length_append]
    omega
  change (if (written ++ rest).length < width then _ else _) = _
  rw [if_neg there]
  exact congrArg Except.ok (read rest)

theorem reads_partitionCount {count : Nat} (message : Int32 → Bytes) (few : count ≤ 1000) :
    Reads (parseCount 0 kMaxTopicsPerRequest message) (writeInt32Be (Int32.ofNat count)) (Int32.ofNat count) := by
  have number : (Int32.ofNat count).toInt = count := toInt_int32_length (by omega)
  have most : kMaxTopicsPerRequest.toInt = 1000 := by decide
  have bounds : ¬(Int32.ofNat count < 0 ∨ kMaxTopicsPerRequest < Int32.ofNat count) := by
    rw [Int32.lt_iff_toInt_lt, Int32.lt_iff_toInt_lt, number, most, Int32.toInt_zero]
    omega
  intro rest
  rw [run_parseCount, if_neg bounds]
  rfl

theorem toNat_partitionCount {count : Nat} (few : count ≤ 1000) : (Int32.ofNat count).toInt.toNat = count := by
  rw [toInt_int32_length (by omega), Int.toNat_natCast]

end

theorem clampedIsolation {isolationLevel : Int8} (listed : ListsIsolation isolationLevel) :
    (if isolationLevel < 0 ∨ 1 < isolationLevel then 0 else isolationLevel) = isolationLevel := by
  rcases listed with rfl | rfl <;> rfl

theorem run_listOffsetsRequest {req : ListOffsetsRequest} (few : req.partitions.length ≤ 1000)
    (isolation : ListsIsolation req.isolationLevel) :
    listOffsetsRequest.run (serializeListOffsetsRequest req) =
      (concatenated parseListOffsetsTopic 0 req.partitions.length >>= fun partitions => Pure.pure
        ({ replicaId := req.replicaId, isolationLevel := req.isolationLevel, partitions } :
          ParsedListOffsetsRequest)).run
        ((besides (-1) req.partitions req.timestamps).flatMap serializeListOffsetsPartition) := by
  unfold listOffsetsRequest serializeListOffsetsRequest
  rw [(reads_checked _ (by simp) (reads_readInt32 req.replicaId)).run_bind,
    (reads_checked _ (by simp) (reads_readInt8Or req.isolationLevel)).run_bind,
    (reads_partitionCount _ few).run_bind, clampedIsolation isolation, toNat_partitionCount few]

theorem reads_parseGroupId {groupId : Bytes} (api : Bytes) (named : NamesGroup groupId) :
    Reads (parseGroupId api) (writeString groupId) groupId := by
  have short : groupId.length < 32768 := lt_of_le_of_lt named.2 (by decide)
  have valid : ¬(groupId.isEmpty = true ∨ kMaxGroupIdLength < groupId.length) := by
    rintro (none | long)
    · exact named.1 (List.isEmpty_iff.mp none)
    · exact not_lt.mpr named.2 long
  intro rest
  unfold parseGroupId
  rw [(reads_taking (reads_readString short)).run_bind, if_neg valid]
  rfl

theorem run_offsetCommitRequest {req : OffsetCommitRequest} (few : req.partitions.length ≤ 1000)
    (group : NamesGroup req.groupId) (member : req.memberId ≠ []) (short : req.memberId.length < 32768)
    (instance_id : req.groupInstanceId.length < 32768) :
    offsetCommitRequest.run (serializeOffsetCommitRequest req) =
      (concatenated parseOffsetCommitTopic 0 req.partitions.length >>= fun partitions => Pure.pure
        ({ groupId := req.groupId, generationId := req.generationId, memberId := req.memberId,
           groupInstanceId := req.groupInstanceId, retentionTimeMs := req.retentionMs, partitions } :
          ParsedOffsetCommitRequest)).run
        ((besides [] (besides (-1) req.partitions req.offsets) req.metadata).flatMap
          serializeOffsetCommitPartition) := by
  have there : ¬req.memberId.isEmpty = true := fun none => member (List.isEmpty_iff.mp none)
  have two : 2 ≤ (writeNullableString req.groupInstanceId).length := by
    unfold writeNullableString
    split
    · simp
    · unfold writeString
      simp
  unfold offsetCommitRequest serializeOffsetCommitRequest
  rw [(reads_parseGroupId _ group).run_bind, (reads_checked _ (by simp) (reads_readInt32 req.generationId)).run_bind,
    (reads_taking (reads_readString short)).run_bind, if_neg there,
    (reads_ifLeft [] two (reads_readNullableString instance_id)).run_bind,
    (reads_checked _ (by simp) (reads_readInt64 req.retentionMs)).run_bind, (reads_partitionCount _ few).run_bind,
    toNat_partitionCount few]

variable {req : OffsetFetchRequest}

theorem run_offsetFetchRequest (few : req.partitions.length ≤ 1000)
    (group : NamesGroup req.groupId) :
    offsetFetchRequest.run (serializeOffsetFetchRequest req) =
      (concatenated parseOffsetFetchTopic 0 req.partitions.length >>= fun partitions => Pure.pure
        ({ groupId := req.groupId, partitions, fetchAll := false } : ParsedOffsetFetchRequest)).run
        (req.partitions.flatMap serializeOffsetFetchPartition) := by
  have number : (Int32.ofNat req.partitions.length).toInt = req.partitions.length := toInt_int32_length (by omega)
  have most : kMaxTopicsPerRequest.toInt = 1000 := by decide
  have some_topics : ¬Int32.ofNat req.partitions.length = -1 := by
    intro all
    have minus_one : (-1 : Int32).toInt = -1 := by decide
    rw [all, minus_one] at number
    omega
  have bounds :
      ¬(Int32.ofNat req.partitions.length < 0 ∨ kMaxTopicsPerRequest < Int32.ofNat req.partitions.length) := by
    rw [Int32.lt_iff_toInt_lt, Int32.lt_iff_toInt_lt, number, most, Int32.toInt_zero]
    omega
  unfold offsetFetchRequest serializeOffsetFetchRequest
  rw [(reads_parseGroupId _ group).run_bind, (reads_ifLeft (-1) (by simp) (reads_readInt32 _)).run_bind,
    if_neg some_topics, if_neg bounds,
    toNat_partitionCount few]

theorem listOffsets_nil_of_received {req : ListOffsetsRequest} {parsed : ParsedListOffsetsRequest}
    (few : req.partitions.length ≤ 1000) (isolation : ListsIsolation req.isolationLevel)
    (parted : Parted TopicPartition.topic req.partitions)
    (read : parseListOffsetsRequest (serializeListOffsetsRequest req) = .ok parsed)
    (received : receivedListOffsets parsed = req) : req.partitions = [] := by
  obtain ⟨last, read⟩ := run'_ok read
  rw [run_listOffsetsRequest few isolation] at read
  obtain ⟨partitions, rest, topics, read⟩ := run_bind_ok read
  cases read
  have listed := congrArg ListOffsetsRequest.partitions received
  have times := congrArg ListOffsetsRequest.timestamps received
  dsimp only [receivedListOffsets] at listed times
  rw [← listed] at parted
  have neighbours : Parted ParsedListOffsetsPartition.topicName partitions := parted.of_map
  have taken := sum_concatenated_le (fun _ _ _ _ one => parseListOffsetsTopic_le one) topics neighbours
  rw [← listed, ← times, besides_map] at taken
  have none := listOffsetsView.eq_nil taken
  rw [← listed, none, map_nil]

theorem offsetCommit_nil_of_received {req : OffsetCommitRequest} {parsed : ParsedOffsetCommitRequest}
    (few : req.partitions.length ≤ 1000) (group : NamesGroup req.groupId) (member : req.memberId ≠ [])
    (short : req.memberId.length < 32768) (instance_id : req.groupInstanceId.length < 32768)
    (parted : Parted TopicPartition.topic req.partitions)
    (read : parseOffsetCommitRequest (serializeOffsetCommitRequest req) = .ok parsed)
    (received : receivedOffsetCommit parsed = req) : req.partitions = [] := by
  obtain ⟨last, read⟩ := run'_ok read
  rw [run_offsetCommitRequest few group member short instance_id] at read
  obtain ⟨partitions, rest, topics, read⟩ := run_bind_ok read
  cases read
  have listed := congrArg OffsetCommitRequest.partitions received
  have offsets := congrArg OffsetCommitRequest.offsets received
  have metadata := congrArg OffsetCommitRequest.metadata received
  dsimp only [receivedOffsetCommit] at listed offsets metadata
  rw [← listed] at parted
  have neighbours : Parted topicName partitions := parted.of_map
  have taken := sum_concatenated_le (fun _ _ _ _ one => parseOffsetCommitTopic_le one) topics neighbours
  rw [← listed, ← offsets, ← metadata, besides_map, besides_map] at taken
  have none := offsetCommitView.eq_nil taken
  rw [← listed, none, map_nil]

theorem offsetFetch_nil_of_received {parsed : ParsedOffsetFetchRequest}
    (listed : ListsPartitions req.partitions) (group : NamesGroup req.groupId)
    (read : parseOffsetFetchRequest (serializeOffsetFetchRequest req) = .ok parsed)
    (received : receivedOffsetFetch parsed = req) : req.partitions = [] := by
  obtain ⟨last, read⟩ := run'_ok read
  rw [run_offsetFetchRequest listed.1 group] at read
  obtain ⟨partitions, rest, topics, read⟩ := run_bind_ok read
  cases read
  have same := congrArg OffsetFetchRequest.partitions received
  dsimp only [receivedOffsetFetch] at same
  have large := parseOffsetFetchTopics_large listed.2 topics
  cases first : req.partitions with
  | nil => rfl
  | cons entry others =>
    rw [first] at same topics
    cases partitions with
    | nil => cases same
    | cons value values =>
      have index : value.partitionIndex = entry.partition :=
        congrArg TopicPartition.partition (List.cons.inj same).1
      have beyond := large value rfl
      rw [index] at beyond
      obtain ⟨named, behind, topic, _⟩ := run_bind_ok topics
      obtain ⟨name, counts, topic_name, topic⟩ := run_bind_ok topic
      obtain ⟨some_byte, short, _⟩ := listed.2 entry (by simp [first])
      rw [flatMap_cons, serializeOffsetFetchPartition, append_assoc, run_parseTopicName some_byte short]
        at topic_name
      cases topic_name
      obtain ⟨count, entries, counted, _⟩ := run_bind_ok topic
      rw [run_parseCount, if_pos (.inr beyond)] at counted
      cases counted

theorem length_serializeFetchPartition_le (maxBytes : Int32) (entry : TopicPartition × Int64) :
    (serializeFetchPartition maxBytes entry).length ≤ 30 + entry.1.topic.length := by
  have name := length_writeString_le entry.1.topic
  simp only [serializeFetchPartition, length_append, length_writeInt32Be, length_writeInt64Be]
  omega

theorem not_received_fetch {req : FetchRequest} {parsed : Fetch.ParsedFetch} (listed : ListsPartitions req.partitions)
    (parted : Parted TopicPartition.topic req.partitions)
    (read : Fetch.parse (serializeFetchRequest req) = .ok parsed) (received : receivedFetch parsed = req)
    (clean : ∀ pf ∈ parsed.partitions, pf.parseError = none) : False := by
  obtain ⟨last, read⟩ := run'_ok read
  let header := writeInt32Be req.maxWaitMs ++ (writeInt32Be req.minBytes ++ (writeInt32Be req.maxBytes ++
    (writeInt8 req.isolationLevel ++ (writeInt32Be req.sessionId ++ (writeInt32Be req.sessionEpoch ++
    writeInt32Be (Int32.ofNat req.partitions.length))))))
  let topics := (besides 0 req.partitions req.fetchOffsets).flatMap (serializeFetchPartition req.maxBytes)
  have bytes : serializeFetchRequest req = header ++ topics := by simp [serializeFetchRequest, header, topics]
  have long : header.length = 25 := by simp [header]
  rw [bytes] at read
  obtain ⟨enough, -, -, topics_read⟩ := parseRequest_ok read
  rw [length_append, long] at enough
  have front : (header ++ topics).drop 25 = topics := drop_left' long
  have behind : (header ++ topics).drop (25 + 4) = topics.drop 4 := by rw [← drop_drop, front]
  rw [front, behind] at topics_read
  have same := congrArg FetchRequest.partitions received
  have offsets := congrArg FetchRequest.fetchOffsets received
  dsimp only [receivedFetch] at same offsets
  have neighbours : Parted Fetch.PerPartitionFetch.topicName parsed.partitions := by
    rw [← same] at parted
    exact parted.of_map
  have taken := parseTopics_ok topics_read clean neighbours
  have many : 65536 ≤ (UInt32.ofNat (decodeBig (topics.take 4))).toInt32.toInt := by
    cases first : req.partitions with
    | nil =>
      have empty : topics = [] := by simp [topics, first, besides_nil]
      rw [empty] at enough
      exact absurd enough (by decide)
    | cons entry others =>
      obtain ⟨some_byte, short, _⟩ := listed.2 entry (by simp [first])
      have named : ∃ rest, topics = writeString entry.topic ++ (writeInt32Be 1 ++ rest) := by
        cases values : req.fetchOffsets with
        | nil | cons offset offsets => simp [topics, first, values, besides, serializeFetchPartition]
      obtain ⟨rest, named⟩ := named
      rw [named]
      exact (large_name some_byte short (by simp; omega)).2
  have written : topics.length ≤ (parsed.partitions.map fun pf => 19 + pf.topicName.length).sum +
      11 * parsed.partitions.length := by
    have entries : topics = (parsed.partitions.map fun pf =>
        (({ topic := pf.topicName, partition := pf.partitionIndex } : TopicPartition), pf.fetchOffset)).flatMap
          (serializeFetchPartition req.maxBytes) := by
      simp only [topics, ← same, ← offsets, besides_map]
    rw [entries]
    induction parsed.partitions with
    | nil => exact le_refl 0
    | cons pf others ih =>
      have own := length_serializeFetchPartition_le req.maxBytes
        ({ topic := pf.topicName, partition := pf.partitionIndex }, pf.fetchOffset)
      dsimp only at own
      simp only [map_cons, flatMap_cons, length_append, sum_cons, length_cons] at ih ⊢
      omega
  have number : parsed.partitions.length ≤ 1000 := by
    have few := listed.1
    rwa [← same, length_map] at few
  rw [length_drop] at taken
  omega

/-- Requests without partitions come back, fetch requests apart; where the neighbours are of different
topics, no others do, and no offset fetch ever does. -/
theorem roundTrips_of_no_partitions (request : OffsetRequest) (sized : request.Sized) :
    (request.Agrees → request.RoundTrips) ∧ (request.Telling → (request.RoundTrips ↔ request.Agrees)) := by
  cases request with
  | fetch req =>
    refine ⟨False.elim, fun parted => ⟨?_, False.elim⟩⟩
    rintro ⟨parsed, read, received, clean⟩
    exact not_received_fetch sized.1 parted read received clean
  | listOffsets req =>
    obtain ⟨listed, isolation, times⟩ := sized
    have back : req.partitions = [] → (OffsetRequest.listOffsets req).RoundTrips := by
      intro none
      have read := run_listOffsetsRequest listed.1 isolation
      rw [none, besides_nil] at read
      have no_times : req.timestamps = [] := eq_nil_of_length_eq_zero (times.trans (congrArg List.length none))
      refine ⟨_, run'_of_run read, ?_⟩
      cases req
      cases none
      cases no_times
      rfl
    exact ⟨back, fun parted => ⟨fun ⟨parsed, read, received⟩ =>
      listOffsets_nil_of_received listed.1 isolation parted read received, back⟩⟩
  | offsetCommit req =>
    obtain ⟨listed, group, ⟨member, short⟩, instance_id, offsets, metadata, _⟩ := sized
    have back : req.partitions = [] → (OffsetRequest.offsetCommit req).RoundTrips := by
      intro none
      have read := run_offsetCommitRequest listed.1 group member short instance_id
      rw [none, besides_nil, besides_nil] at read
      have no_offsets : req.offsets = [] := eq_nil_of_length_eq_zero (offsets.trans (congrArg List.length none))
      have no_metadata : req.metadata = [] :=
        eq_nil_of_length_eq_zero (metadata.trans (congrArg List.length none))
      refine ⟨_, run'_of_run read, ?_, fun pp member => nomatch member⟩
      cases req
      cases none
      cases no_offsets
      cases no_metadata
      rfl
    exact ⟨back, fun parted => ⟨fun ⟨parsed, read, received, _⟩ =>
      offsetCommit_nil_of_received listed.1 group member short instance_id parted read received, back⟩⟩
  | offsetFetch req =>
    obtain ⟨listed, group⟩ := sized
    have back : req.partitions = [] → (OffsetRequest.offsetFetch req).RoundTrips := by
      intro none
      have read := run_offsetFetchRequest listed.1 group
      rw [none] at read
      refine ⟨_, run'_of_run read, ?_⟩
      cases req
      cases none
      rfl
    exact ⟨back, fun _ => ⟨fun ⟨parsed, read, received⟩ =>
      offsetFetch_nil_of_received listed group read received, back⟩⟩

def noOffsets : OffsetRequest :=
  .listOffsets { replicaId := -1, isolationLevel := 0, partitions := [], timestamps := [] }

theorem noOffsets_roundTrips : noOffsets.RoundTrips :=
  (roundTrips_of_no_partitions noOffsets ⟨by decide, by decide, by decide⟩).1 rfl

def latestOffset : ListOffsetsRequest where
  replicaId := -1
  isolationLevel := 0
  partitions := [{ topic := text "t", partition := 0 }]
  timestamps := [-1]

theorem latestOffset_not_roundTrips :
    (OffsetRequest.listOffsets latestOffset).Sized ∧ ¬(OffsetRequest.listOffsets latestOffset).RoundTrips := by
  have listed : ListsPartitions latestOffset.partitions := by decide +kernel
  have isolation : ListsIsolation latestOffset.isolationLevel := by decide
  refine ⟨⟨listed, isolation, rfl⟩, ?_⟩
  rintro ⟨parsed, read, received⟩
  have none := listOffsets_nil_of_received listed.1 isolation (isChain_singleton _) read received
  cases none

end TorrentMq.Network.Offset
