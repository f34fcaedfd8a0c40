import TorrentMq.Consensus.MetadataSnapshot
import TorrentMq.Consensus.MetadataStoreProperties

/-! What a snapshot carries over to the store it is restored into. -/

set_option autoImplicit false

namespace TorrentMq.Consensus

open Bytes Reader OrderedMap List Option

theorem reads_read16 (value : UInt16) : Reads read16 (write16 value) value := by
  have read := @Reads.map _ _ _ _ _ _ UInt16.ofNat _ _ (@reads_big 2 value.toNat (UInt16.toNat_lt value))
  rwa [UInt16.ofNat_toNat] at read

theorem reads_read32 (value : UInt32) : Reads read32 (write32 value) value := by
  have read := @Reads.map _ _ _ _ _ _ UInt32.ofNat _ _ (@reads_big 4 value.toNat (UInt32.toNat_lt value))
  rwa [UInt32.ofNat_toNat] at read

theorem reads_read32Signed (value : Int32) : Reads read32Signed (write32Signed value) value :=
  (reads_read32 value.toUInt32).map

theorem reads_read64 (value : UInt64) : Reads read64 (write64 value) value := by
  have read := @Reads.map _ _ _ _ _ _ UInt64.ofNat _ _ (@reads_big 8 value.toNat (UInt64.toNat_lt value))
  rwa [UInt64.ofNat_toNat] at read

theorem reads_read64Signed (value : Int64) : Reads read64Signed (write64 value.toUInt64) value :=
  (reads_read64 value.toUInt64).map

theorem reads_readByte (value : UInt8) : Reads readByte [value] value := by
  have read : Reads (take 1 >>= fun bytes => pure (bytes.headD 0)) [value] value :=
    (reads_take [value]).map
  exact read

theorem reads_readBool (value : Bool) : Reads readBool (writeBool value) value := by
  have read := @Reads.map _ _ _ _ _ _ (fun byte : UInt8 => decide (byte ≠ 0)) _ _
    (reads_readByte (if value then 1 else 0))
  cases value <;> exact read

def ShortString (string : Bytes) : Prop := string.length < 65536

def ShortList {Value : Type} (values : List Value) : Prop := values.length < 2 ^ 32

instance (string : Bytes) : Decidable (ShortString string) := inferInstanceAs (Decidable (_ < _))

instance {Value : Type} (values : List Value) : Decidable (ShortList values) :=
  inferInstanceAs (Decidable (_ < _))

theorem reads_readString16 {string : Bytes} (short : ShortString string) :
    Reads readString16 (writeString16 string) string := by
  refine (reads_read16 (UInt16.ofNat string.length)).bind ?_
  rw [UInt16.toNat_ofNat_of_lt' short]
  exact reads_take string

theorem reads_readList {Value : Type} {reader : Reader Value} {write : Value → Bytes} {values : List Value}
    (short : ShortList values) (each : ∀ value ∈ values, Reads reader (write value) value) :
    Reads (readList reader) (writeList write values) values := by
  refine (reads_read32 (UInt32.ofNat values.length)).bind ?_
  rw [UInt32.toNat_ofNat_of_lt' short]
  exact Reads.many each

@[mk_iff]
structure TopicConfig.Encodable (config : TopicConfig) : Prop where
  strings : ∀ entry ∈ config.configs.entries, ShortString entry.1 ∧ ShortString entry.2
  count : ShortList config.configs.entries

@[mk_iff]
structure PartitionMetadata.Encodable (partition : PartitionMetadata) : Prop where
  isr : ShortList partition.isr
  replicas : ShortList partition.replicas
  observers : ShortList partition.observers
  addingReplicas : ShortList partition.addingReplicas
  removingReplicas : ShortList partition.removingReplicas

@[mk_iff]
structure TopicMetadata.Encodable (topic : TopicMetadata) : Prop where
  name : ShortString topic.name
  config : topic.config.Encodable
  count : ShortList topic.partitions
  partitions : ∀ partition ∈ topic.partitions, partition.Encodable

@[mk_iff]
structure BrokerMetadata.Encodable (broker : BrokerMetadata) : Prop where
  host : ShortString broker.endpoint.host
  rack : ShortString broker.rack
  hostname : ShortString broker.hostname
  count : ShortList broker.capabilities
  capabilities : ∀ capability ∈ broker.capabilities, ShortString capability

@[mk_iff]
structure MetadataStore.Encodable (store : MetadataStore) : Prop where
  topicCount : ShortList store.topicsByName.entries
  topics : ∀ entry ∈ store.topicsByName.entries, entry.2.Encodable
  brokerCount : ShortList store.brokers.entries
  brokers : ∀ entry ∈ store.brokers.entries, entry.2.Encodable

instance (config : TopicConfig) : Decidable config.Encodable :=
  decidable_of_iff _ (TopicConfig.encodable_iff config).symm

instance (partition : PartitionMetadata) : Decidable partition.Encodable :=
  decidable_of_iff _ (PartitionMetadata.encodable_iff partition).symm

instance (topic : TopicMetadata) : Decidable topic.Encodable :=
  decidable_of_iff _ (TopicMetadata.encodable_iff topic).symm

instance (broker : BrokerMetadata) : Decidable broker.Encodable :=
  decidable_of_iff _ (BrokerMetadata.encodable_iff broker).symm

instance (store : MetadataStore) : Decidable store.Encodable :=
  decidable_of_iff _ (MetadataStore.encodable_iff store).symm

theorem reads_readTopicConfig (order : VisitOrder) {config : TopicConfig} (encodable : config.Encodable) :
    Reads readTopicConfig (writeTopicConfig order config) config := by
  have perm := order.perm config.configs
  have entries : Reads (readList readConfigEntry)
      (writeList (fun entry => writeString16 entry.1 ++ writeString16 entry.2) (order.visit config.configs))
      (order.visit config.configs) := by
    refine reads_readList (perm.length_eq.trans_lt encodable.count) fun entry member => ?_
    obtain ⟨key, value⟩ := encodable.strings entry (perm.mem_iff.mp member)
    exact (reads_readString16 key).bind (reads_readString16 value).map
  have configs := foldl_insert_of_perm perm
  unfold readTopicConfig writeTopicConfig
  refine (reads_read32Signed _).bind ((reads_read32Signed _).bind ((reads_read32Signed _).bind
    ((reads_read64Signed _).bind ((reads_read64Signed _).bind ((reads_read64Signed _).bind
    ((reads_read64Signed _).bind ((reads_readByte _).bind ((reads_readBool _).bind ((reads_readBool _).bind
    ((reads_read64Signed _).bind ((reads_readBool _).bind ?_)))))))))))
  have read := @Reads.map _ _ _ _ _ _ (fun entries : List (Bytes × Bytes) =>
    ({ config with configs :=
      entries.foldl (fun configs entry => configs.insert entry.1 entry.2) .empty } : TopicConfig)) _ _ entries
  rw [configs] at read
  exact read

theorem reads_readPartition {partition : PartitionMetadata} (encodable : partition.Encodable) :
    Reads readPartition (writePartition partition) partition := by
  have ids : ∀ {values : List Int32}, ShortList values →
      Reads (readList read32Signed) (writeList write32Signed values) values :=
    fun short => reads_readList short fun value _ => reads_read32Signed value
  exact (reads_read32Signed _).bind ((reads_read32Signed _).bind ((reads_read64Signed _).bind
    ((ids encodable.isr).bind ((ids encodable.replicas).bind ((ids encodable.observers).bind
    ((ids encodable.addingReplicas).bind ((ids encodable.removingReplicas).bind
    (reads_readBool _).map)))))))

def TopicMetadata.withoutCreator (topic : TopicMetadata) : TopicMetadata := { topic with createdBy := [] }

theorem reads_readTopic (order : VisitOrder) {topic : TopicMetadata} (encodable : topic.Encodable) :
    Reads readTopic (writeTopic order topic) topic.withoutCreator := by
  have partitions := reads_readList encodable.count fun partition member =>
    reads_readPartition (encodable.partitions partition member)
  exact (reads_read64 _).bind ((reads_readString16 encodable.name).bind
    ((reads_readTopicConfig order encodable.config).bind (partitions.bind ((reads_read64Signed _).bind
    ((reads_read64Signed _).bind ((reads_readBool _).bind (reads_read64Signed _).map))))))

theorem reads_readBroker {broker : BrokerMetadata} (encodable : broker.Encodable) :
    Reads readBroker (writeBroker broker) broker := by
  have capabilities := reads_readList encodable.count fun capability member =>
    reads_readString16 (encodable.capabilities capability member)
  exact (reads_read32Signed _).bind ((reads_readString16 encodable.host).bind ((reads_read16 _).bind
    ((reads_readString16 encodable.rack).bind ((reads_readString16 encodable.hostname).bind
    ((reads_read64Signed _).bind ((reads_read64Signed _).bind (capabilities.bind
    ((reads_readBool _).bind (reads_readBool _).map))))))))

theorem loadSection_writeList {Value Loaded : Type} {reader : Reader Loaded} {write : Value → Bytes}
    {loaded : Value → Loaded} (put : MetadataStore → Loaded → MetadataStore) {values : List Value}
    (short : ShortList values) (each : ∀ value ∈ values, Reads reader (write value) (loaded value))
    (store : MetadataStore) (rest : Bytes) :
    loadSection reader put store (writeList write values ++ rest) =
      (values.foldl (fun store value => put store (loaded value)) store, some rest) := by
  unfold loadSection writeList
  rw [append_assoc, reads_read32]
  dsimp only [Option.pure_def]
  rw [UInt32.toNat_ofNat_of_lt' short]
  clear short
  induction values generalizing store with
  | nil => rfl
  | cons value values ih =>
    rw [length_cons, load, flatMap_cons, append_assoc, each value mem_cons_self]
    exact ih (fun other member => each other (by simp [member])) _

namespace MetadataStore

def live (store : MetadataStore) (id : UInt64) : Option TopicMetadata :=
  (store.getTopicById id).filter fun topic => !topic.deleted

def carried (store : MetadataStore) (name : Bytes) : Option TopicMetadata :=
  ((store.getTopicByName name).filter fun topic => !topic.deleted).map TopicMetadata.withoutCreator

variable {store : MetadataStore} {topic : TopicMetadata}

theorem live_eq_some_iff {id : UInt64} :
    store.live id = some topic ↔ store.getTopicById id = some topic ∧ topic.deleted = false := by
  simp [live, filter_eq_some_iff]

theorem carried_eq_some_iff {name : Bytes} :
    store.carried name = some topic ↔ ∃ original, store.getTopicByName name = some original ∧
      original.deleted = false ∧ original.withoutCreator = topic := by
  simp [carried, filter_eq_some_iff, and_assoc]

theorem mem_allTopics_iff (keyed : store.Keyed) {order : VisitOrder} :
    topic ∈ store.allTopics order ↔ store.getTopicByName topic.name = some topic ∧ topic.deleted = false := by
  simp only [allTopics, List.mem_filter, List.mem_map, Bool.not_eq_true']
  refine and_congr_left fun _ => ⟨?_, fun found => ?_⟩
  · rintro ⟨entry, member, rfl⟩
    have found : store.getTopicByName entry.1 = some entry.2 :=
      find?_eq_some_iff.mpr ((order.perm _).mem_iff.mp member)
    rwa [keyed.names _ _ found]
  · exact ⟨(topic.name, topic), (order.perm _).mem_iff.mpr (find?_eq_some_iff.mp found), rfl⟩

theorem foldl_upsertTopic (topics : List TopicMetadata) (store : MetadataStore) :
    topics.foldl (fun store topic => store.upsertTopic topic.withoutCreator) store =
      { store with
        topicsByName := topics.foldl (fun map topic => map.insert topic.name topic.withoutCreator) store.topicsByName
        topicsById := topics.foldl (fun map topic => map.insert topic.topicId topic.withoutCreator)
          store.topicsById } := by
  induction topics generalizing store with
  | nil => rfl
  | cons topic topics ih =>
    rw [foldl_cons, ih]
    rfl

theorem foldl_registerBroker (brokers : List BrokerMetadata) (store : MetadataStore) :
    brokers.foldl registerBroker store =
      ⟨store.topicsByName, store.topicsById,
        brokers.foldl (fun map broker => map.insert broker.brokerId broker) store.brokers⟩ := by
  induction brokers generalizing store with
  | nil => rfl
  | cons broker brokers ih =>
    rw [foldl_cons, ih]
    rfl

theorem deserialize_serialize (order : VisitOrder) {source : MetadataStore} (encodable : source.Encodable)
    (target : MetadataStore) :
    deserialize (serialize order source) target =
      ((source.allBrokers order).foldl registerBroker ((source.allTopics order).foldl
        (fun store topic => store.upsertTopic topic.withoutCreator) target), true) := by
  have topicCount : ShortList (source.allTopics order) := by
    refine lt_of_le_of_lt (length_filter_le _ _) ?_
    rw [length_map, (order.perm source.topicsByName).length_eq]
    exact encodable.topicCount
  have brokerCount : ShortList (source.allBrokers order) := by
    unfold ShortList
    rw [allBrokers, length_map, (order.perm source.brokers).length_eq]
    exact encodable.brokerCount
  have topics : ∀ topic ∈ source.allTopics order, Reads readTopic (writeTopic order topic) topic.withoutCreator := by
    intro topic member
    obtain ⟨entry, inside, rfl⟩ := List.mem_map.mp (List.mem_filter.mp member).1
    exact reads_readTopic order (encodable.topics entry ((order.perm _).mem_iff.mp inside))
  have brokers : ∀ broker ∈ source.allBrokers order, Reads readBroker (writeBroker broker) broker := by
    intro broker member
    obtain ⟨entry, inside, rfl⟩ := List.mem_map.mp member
    exact reads_readBroker (encodable.brokers entry ((order.perm _).mem_iff.mp inside))
  have last := fun store => loadSection_writeList registerBroker brokerCount brokers store []
  simp only [append_nil] at last
  unfold deserialize serialize
  rw [reads_read32]
  dsimp only [Option.pure_def]
  rw [if_neg (not_not.mpr rfl), reads_read32]
  dsimp only [Option.pure_def]
  rw [if_neg (not_not.mpr rfl), loadSection_writeList upsertTopic topicCount topics]
  dsimp only
  rw [last]

def restored (order : VisitOrder) (source target : MetadataStore) : MetadataStore :=
  (deserialize (serialize order source) target).1

section Restored

variable {order : VisitOrder} {source : MetadataStore} (keyed : source.Keyed) (encodable : source.Encodable)
  (target : MetadataStore)

include keyed encodable

theorem restored_byName (name : Bytes) :
    (restored order source target).getTopicByName name = (source.carried name).or (target.getTopicByName name) := by
  have shape : (restored order source target).topicsByName = (source.allTopics order).foldl
      (fun map topic => map.insert topic.name topic.withoutCreator) target.topicsByName := by
    rw [restored, deserialize_serialize order encodable, foldl_registerBroker, foldl_upsertTopic]
  rw [getTopicByName, shape]
  rcases find?_foldl_insert TopicMetadata.name TopicMetadata.withoutCreator (source.allTopics order)
    target.topicsByName name with ⟨topic, member, rfl, found⟩ | ⟨absent, found⟩
  · obtain ⟨stored, alive⟩ := (mem_allTopics_iff keyed).mp member
    rw [found, carried_eq_some_iff.mpr ⟨topic, stored, alive, rfl⟩]
    rfl
  · have missing : source.carried name = none := by
      by_contra present
      obtain ⟨topic, carries⟩ := ne_none_iff_exists'.mp present
      obtain ⟨original, stored, alive, -⟩ := carried_eq_some_iff.mp carries
      have own := keyed.names _ _ stored
      exact absent original ((mem_allTopics_iff keyed).mpr ⟨by rwa [own], alive⟩) own
    rw [found, missing]
    rfl

theorem restored_byId (id : UInt64) :
    (∃ name topic, source.carried name = some topic ∧ topic.topicId = id ∧
        (restored order source target).getTopicById id = some topic) ∨
      (∀ name topic, source.carried name = some topic → topic.topicId ≠ id) ∧
        (restored order source target).getTopicById id = target.getTopicById id := by
  have shape : (restored order source target).topicsById = (source.allTopics order).foldl
      (fun map topic => map.insert topic.topicId topic.withoutCreator) target.topicsById := by
    rw [restored, deserialize_serialize order encodable, foldl_registerBroker, foldl_upsertTopic]
  rw [getTopicById, shape]
  rcases find?_foldl_insert TopicMetadata.topicId TopicMetadata.withoutCreator (source.allTopics order)
    target.topicsById id with ⟨topic, member, own, found⟩ | ⟨absent, found⟩
  · obtain ⟨stored, alive⟩ := (mem_allTopics_iff keyed).mp member
    exact .inl ⟨topic.name, topic.withoutCreator, carried_eq_some_iff.mpr ⟨topic, stored, alive, rfl⟩, own, found⟩
  · refine .inr ⟨fun name topic carries => ?_, found⟩
    obtain ⟨original, stored, alive, rfl⟩ := carried_eq_some_iff.mp carries
    have own := keyed.names _ _ stored
    exact absent original ((mem_allTopics_iff keyed).mpr ⟨by rwa [own], alive⟩)

theorem restored_brokers (id : Int32) :
    (restored order source target).brokers.find? id = (source.brokers.find? id).or (target.brokers.find? id) := by
  have shape : (restored order source target).brokers = (source.allBrokers order).foldl
      (fun map broker => map.insert broker.brokerId broker) target.brokers := by
    rw [restored, deserialize_serialize order encodable, foldl_registerBroker, foldl_upsertTopic]
  have members : ∀ broker, broker ∈ source.allBrokers order ↔ source.brokers.find? broker.brokerId = some broker := by
    intro broker
    rw [allBrokers, List.mem_map]
    constructor
    · rintro ⟨entry, member, rfl⟩
      have found := find?_eq_some_iff.mpr ((order.perm _).mem_iff.mp member)
      rwa [keyed.brokers _ _ found]
    · exact fun found => ⟨(broker.brokerId, broker), (order.perm _).mem_iff.mpr (find?_eq_some_iff.mp found), rfl⟩
  rw [shape]
  rcases find?_foldl_insert BrokerMetadata.brokerId (fun broker => broker) (source.allBrokers order)
    target.brokers id with ⟨broker, member, rfl, found⟩ | ⟨absent, found⟩
  · rw [found, (members broker).mp member]
    rfl
  · have missing : source.brokers.find? id = none := by
      by_contra present
      obtain ⟨broker, stored⟩ := ne_none_iff_exists'.mp present
      have own := keyed.brokers _ _ stored
      exact absent broker ((members broker).mpr (by rwa [own])) own
    rw [found, missing]
    rfl

end Restored

/-- The restored store has the topics of the source that are not deleted, as
their ids show them, and its brokers, and nothing else. -/
structure RestoresExactly (order : VisitOrder) (source target : MetadataStore) : Prop where
  succeeds : (deserialize (serialize order source) target).2 = true
  byId : ∀ id, (restored order source target).getTopicById id = source.live id
  byName : ∀ name topic, (restored order source target).getTopicByName name = some topic ↔
    topic.name = name ∧ source.live topic.topicId = some topic
  brokers : ∀ id, (restored order source target).brokers.find? id = source.brokers.find? id

/-- The views of the source agree on what is not deleted, without a creator,
or the target has it already; and the target has no name, id or broker that
the source does not have. -/
def Restorable (source target : MetadataStore) : Prop :=
  (∀ entry ∈ source.topicsByName.entries, entry.2.deleted = false →
      source.live entry.2.topicId = some entry.2.withoutCreator) ∧
    (∀ entry ∈ source.topicsById.entries, entry.2.deleted = false →
      source.carried entry.2.name = some entry.2 ∨ source.carried entry.2.name = none ∧
        target.getTopicByName entry.2.name = some entry.2 ∧ target.getTopicById entry.1 = some entry.2) ∧
    (∀ name ∈ target.topicsByName.keys, ∃ entry ∈ source.topicsById.entries,
      entry.2.deleted = false ∧ entry.2.name = name) ∧
    (∀ id ∈ target.topicsById.keys, source.live id ≠ none) ∧
    ∀ id ∈ target.brokers.keys, id ∈ source.brokers.keys

instance (source target : MetadataStore) : Decidable (Restorable source target) :=
  @instDecidableAnd _ _ (decidableBAll _ _) <| @instDecidableAnd _ _ (decidableBAll _ _) <|
    @instDecidableAnd _ _ (decidableBAll _ _) <| @instDecidableAnd _ _ (decidableBAll _ _)
      (decidableBAll _ _)

section Exactness

variable {order : VisitOrder} {source target : MetadataStore} (keyed : source.Keyed)
  (encodable : source.Encodable)

include keyed

theorem carried_name {name : Bytes} {topic : TopicMetadata} (carries : source.carried name = some topic) :
    topic.name = name := by
  obtain ⟨original, stored, -, rfl⟩ := carried_eq_some_iff.mp carries
  exact keyed.names name original stored

theorem live_topicId {id : UInt64} {topic : TopicMetadata} (alive : source.live id = some topic) :
    topic.topicId = id :=
  keyed.ids _ _ (live_eq_some_iff.mp alive).1

include encodable

theorem RestoresExactly.restorable (exact : RestoresExactly order source target) :
    Restorable source target := by
  have names := @restored_byName order source keyed encodable target
  have ids := @restored_byId order source keyed encodable target
  refine ⟨fun entry member alive => ?_, fun entry member alive => ?_, fun name member => ?_,
    fun id member => ?_, fun id member => ?_⟩
  · have carries : source.carried entry.1 = some entry.2.withoutCreator :=
      carried_eq_some_iff.mpr ⟨entry.2, find?_eq_some_iff.mpr member, alive, rfl⟩
    have found : (restored order source target).getTopicByName entry.1 = some entry.2.withoutCreator := by
      rw [names, carries, some_or]
    exact ((exact.byName _ _).mp found).2
  · have alive : source.live entry.1 = some entry.2 :=
      live_eq_some_iff.mpr ⟨find?_eq_some_iff.mpr member, alive⟩
    have own := live_topicId keyed alive
    have found := (exact.byName entry.2.name entry.2).mpr ⟨rfl, by rwa [own]⟩
    rw [names] at found
    cases carries : source.carried entry.2.name with
    | some topic =>
      rw [carries, some_or] at found
      exact .inl found
    | none =>
      rw [carries, none_or] at found
      refine .inr ⟨rfl, found, ?_⟩
      have stored := (exact.byId entry.1).trans alive
      rcases ids entry.1 with ⟨name, topic, other, -, read⟩ | ⟨-, read⟩
      · obtain rfl := Option.some.inj (read.symm.trans stored)
        rw [carried_name keyed other, other] at carries
        cases carries
      · exact read.symm.trans stored
  · obtain ⟨topic, stored⟩ := mem_keys.mp member
    have found : ∃ kept, (restored order source target).getTopicByName name = some kept := by
      rw [names, show target.getTopicByName name = some topic from find?_eq_some_iff.mpr stored]
      cases source.carried name with
      | none => exact ⟨topic, rfl⟩
      | some other => exact ⟨other, rfl⟩
    obtain ⟨kept, found⟩ := found
    obtain ⟨own, alive⟩ := (exact.byName name kept).mp found
    obtain ⟨inside, alive⟩ := live_eq_some_iff.mp alive
    exact ⟨(kept.topicId, kept), find?_eq_some_iff.mp inside, alive, own⟩
  · obtain ⟨topic, stored⟩ := mem_keys.mp member
    rw [← exact.byId id]
    rcases ids id with ⟨name, other, -, -, read⟩ | ⟨-, read⟩
    · rw [read]
      exact some_ne_none other
    · rw [read, show target.getTopicById id = some topic from find?_eq_some_iff.mpr stored]
      exact some_ne_none topic
  · obtain ⟨broker, stored⟩ := mem_keys.mp member
    by_contra missing
    have absent := find?_eq_none_iff_not_mem_keys.mpr missing
    have read := exact.brokers id
    rw [restored_brokers keyed encodable target, absent, find?_eq_some_iff.mpr stored] at read
    cases read

theorem Restorable.restoresExactly (restorable : Restorable source target) :
    RestoresExactly order source target := by
  obtain ⟨shown, named, names, ids, brokers⟩ := restorable
  have shown : ∀ name topic, source.carried name = some topic → source.live topic.topicId = some topic := by
    intro name topic carries
    obtain ⟨original, stored, alive, rfl⟩ := carried_eq_some_iff.mp carries
    exact shown (name, original) (find?_eq_some_iff.mp stored) alive
  have named : ∀ id topic, source.live id = some topic → source.carried topic.name = some topic ∨
      source.carried topic.name = none ∧ target.getTopicByName topic.name = some topic ∧
        target.getTopicById id = some topic := by
    intro id topic alive
    obtain ⟨stored, alive⟩ := live_eq_some_iff.mp alive
    exact named (id, topic) (find?_eq_some_iff.mp stored) alive
  refine ⟨by rw [deserialize_serialize order encodable], fun id => ?_, fun name topic => ?_, fun id => ?_⟩
  · rcases @restored_byId order source keyed encodable target id with ⟨name, topic, carries, own, read⟩ |
      ⟨absent, read⟩
    · rw [read, ← own, shown name topic carries]
    · rw [read]
      cases alive : source.live id with
      | some topic =>
        rcases named id topic alive with carries | ⟨-, -, stored⟩
        · exact absurd (live_topicId keyed alive) (absent _ _ carries)
        · exact stored
      | none =>
        by_contra present
        obtain ⟨topic, stored⟩ := ne_none_iff_exists'.mp present
        exact ids id (mem_keys.mpr ⟨topic, find?_eq_some_iff.mp stored⟩) alive
  · rw [restored_byName keyed encodable target]
    constructor
    · intro found
      cases carries : source.carried name with
      | some other =>
        rw [carries, some_or] at found
        obtain rfl := Option.some.inj found
        exact ⟨carried_name keyed carries, shown name other carries⟩
      | none =>
        rw [carries, none_or] at found
        obtain ⟨entry, member, alive, rfl⟩ := names name (mem_keys.mpr ⟨topic, find?_eq_some_iff.mp found⟩)
        have alive : source.live entry.1 = some entry.2 :=
          live_eq_some_iff.mpr ⟨find?_eq_some_iff.mpr member, alive⟩
        rcases named entry.1 entry.2 alive with other | ⟨-, stored, -⟩
        · rw [carries] at other
          cases other
        · obtain rfl := Option.some.inj (stored.symm.trans found)
          exact ⟨rfl, by rwa [live_topicId keyed alive]⟩
    · rintro ⟨rfl, alive⟩
      rcases named topic.topicId topic alive with carries | ⟨carries, stored, -⟩
      · rw [carries, some_or]
      · rw [carries, none_or, stored]
  · rw [restored_brokers keyed encodable target]
    cases stored : source.brokers.find? id with
    | some broker => rfl
    | none =>
      rw [none_or]
      by_contra present
      obtain ⟨broker, found⟩ := ne_none_iff_exists'.mp present
      have member := brokers id (mem_keys.mpr ⟨broker, find?_eq_some_iff.mp found⟩)
      exact find?_eq_none_iff_not_mem_keys.mp stored member

end Exactness

theorem run_keyed (calls : List MetadataCall) : (run {} calls).Keyed := by
  have meets : CallsMeet (fun _ _ => True) {} calls := Runs.meets_of_forall (fun _ _ => trivial) _
  exact meets.preserves Keyed (fun _ call _ keyed => keyed.step call) empty_keyed

/-- For every store that calls can build and every target, restoring its
snapshot gives exactly its topics and brokers if and only if the store is
restorable into the target. -/
theorem restoresExactly_iff (order : VisitOrder) (calls : List MetadataCall)
    (encodable : (run {} calls).Encodable) (target : MetadataStore) :
    RestoresExactly order (run {} calls) target ↔ Restorable (run {} calls) target :=
  ⟨RestoresExactly.restorable (run_keyed calls) encodable, Restorable.restoresExactly (run_keyed calls) encodable⟩

def smallCluster : List MetadataCall :=
  [ .upsertTopic {
      topicId := 1
      name := [97]
      config := { configs := OrderedMap.empty.insert [107] [118] }
      partitions := [{ leader := 1, isr := [1, 2] }] }
  , .registerBroker { brokerId := 1, rack := [114], capabilities := [[99]] } ]

theorem restoresExactly_smallCluster : RestoresExactly .ascending (run {} smallCluster) {} :=
  (restoresExactly_iff .ascending smallCluster (by decide +kernel) {}).mpr (by decide +kernel)

/-- The snapshot has the leader that the name shows, not the one the id shows. -/
theorem restore_loses_leader :
    (run {} (smallCluster ++ [.updatePartitionLeader 1 0 2 1])).Encodable ∧
      ¬RestoresExactly .ascending (run {} (smallCluster ++ [.updatePartitionLeader 1 0 2 1])) {} := by
  refine ⟨by decide +kernel, fun exact => ?_⟩
  exact absurd (exact.byId 1) (by decide +kernel)

end MetadataStore

end TorrentMq.Consensus
