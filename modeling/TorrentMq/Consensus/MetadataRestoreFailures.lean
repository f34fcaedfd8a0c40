import TorrentMq.Consensus.MetadataSnapshotProperties

/-! What a failed restore leaves. Every topic and every broker is put into the
store as soon as it is read, so all that stood before the bytes that cannot be
read stays there. -/

set_option autoImplicit false

namespace TorrentMq.Consensus

open Bytes Reader OrderedMap MetadataStore TopicMetadata

def readable {Value : Type} (reader : Reader Value) : Nat → Bytes → List Value × Option Bytes
  | 0, bytes => ([], some bytes)
  | count + 1, bytes =>
    match reader.run bytes with
    | none => ([], none)
    | some (value, bytes) => (value :: (readable reader count bytes).1, (readable reader count bytes).2)

def readableSection {Value : Type} (reader : Reader Value) (bytes : Bytes) :
    List Value × Option Bytes :=
  match read32.run bytes with
  | none => ([], none)
  | some (count, bytes) => readable reader count.toNat bytes

def snapshotBody (data : Bytes) : Option Bytes :=
  match read32.run data with
  | none => none
  | some (magic, bytes) =>
    if magic ≠ kMetadataMagic then none
    else
      match read32.run bytes with
      | none => none
      | some (version, bytes) => if version ≠ kMetadataFormatVersion then none else some bytes

def readableTopics (data : Bytes) : List TopicMetadata :=
  match snapshotBody data with
  | none => []
  | some bytes => (readableSection readTopic bytes).1

def readableBrokers (data : Bytes) : List BrokerMetadata :=
  match (snapshotBody data).bind fun bytes => (readableSection readTopic bytes).2 with
  | none => []
  | some bytes => (readableSection readBroker bytes).1

section Loading

variable {Value : Type} (reader : Reader Value) (put : MetadataStore → Value → MetadataStore)

theorem load_eq (count : Nat) (store : MetadataStore) (bytes : Bytes) :
    load reader put count store bytes =
      ((readable reader count bytes).1.foldl put store, (readable reader count bytes).2) := by
  induction count generalizing store bytes with
  | zero => rfl
  | succ count ih =>
    unfold load readable
    cases reader.run bytes with
    | none => rfl
    | some read => exact ih (put store read.1) read.2

theorem loadSection_eq (store : MetadataStore) (bytes : Bytes) :
    loadSection reader put store bytes =
      ((readableSection reader bytes).1.foldl put store, (readableSection reader bytes).2) := by
  unfold loadSection readableSection
  cases read32.run bytes with
  | none => rfl
  | some read => exact load_eq reader put read.1.toNat store read.2

end Loading

theorem deserialize_fst (data : Bytes) (store : MetadataStore) :
    (deserialize data store).1 = (readableBrokers data).foldl registerBroker
      ((readableTopics data).foldl upsertTopic store) := by
  unfold deserialize readableBrokers readableTopics snapshotBody
  cases read32.run data with
  | none => rfl
  | some header =>
    dsimp only
    split
    next => rfl
    next =>
      cases read32.run header.2 with
      | none => rfl
      | some version =>
        dsimp only
        split
        next => rfl
        next =>
          rw [loadSection_eq, Option.bind_some]
          cases (readableSection readTopic version.2).2 with
          | none => rfl
          | some bytes =>
            dsimp only
            rw [loadSection_eq]
            cases (readableSection readBroker bytes).2 with
            | none => rfl
            | some => rfl

/-- The last topic that is read under each name and each id, and the last broker under each id,
are those that the store has there. -/
structure BringsNothing (data : Bytes) (store : MetadataStore) : Prop where
  names : ∀ topic ∈ readableTopics data,
    store.topicsByName.find? topic.name = lastUnder name (readableTopics data) topic.name
  ids : ∀ topic ∈ readableTopics data,
    store.topicsById.find? topic.topicId = lastUnder topicId (readableTopics data) topic.topicId
  brokers : ∀ broker ∈ readableBrokers data,
    store.brokers.find? broker.brokerId = lastUnder BrokerMetadata.brokerId (readableBrokers data) broker.brokerId

theorem bringsNothing_iff {data : Bytes} {store : MetadataStore} : BringsNothing data store ↔
    (∀ topic ∈ readableTopics data,
      store.topicsByName.find? topic.name = lastUnder name (readableTopics data) topic.name) ∧
    (∀ topic ∈ readableTopics data,
      store.topicsById.find? topic.topicId = lastUnder topicId (readableTopics data) topic.topicId) ∧
    ∀ broker ∈ readableBrokers data,
      store.brokers.find? broker.brokerId = lastUnder BrokerMetadata.brokerId (readableBrokers data) broker.brokerId :=
  ⟨fun nothing => ⟨nothing.names, nothing.ids, nothing.brokers⟩, fun nothing => ⟨nothing.1, nothing.2.1, nothing.2.2⟩⟩

instance (data : Bytes) (store : MetadataStore) : Decidable (BringsNothing data store) :=
  decidable_of_iff _ bringsNothing_iff.symm

theorem foldl_upsertTopic_eq (topics : List TopicMetadata) (store : MetadataStore) :
    topics.foldl upsertTopic store = { store with
      topicsByName := topics.foldl (fun map topic => map.insert topic.name topic) store.topicsByName
      topicsById := topics.foldl (fun map topic => map.insert topic.topicId topic) store.topicsById } := by
  induction topics generalizing store with
  | nil => rfl
  | cons topic topics ih => exact ih (store.upsertTopic topic)

/-- A restore that fails leaves the store as it was exactly when all it could read was there already. -/
theorem deserialize_failed_iff (data : Bytes) (store : MetadataStore)
    (failed : (deserialize data store).2 = false) :
    (deserialize data store).1 = store ↔ BringsNothing data store := by
  have shape : (deserialize data store).1 = ⟨
      (readableTopics data).foldl (fun map topic => map.insert topic.name topic) store.topicsByName,
      (readableTopics data).foldl (fun map topic => map.insert topic.topicId topic) store.topicsById,
      (readableBrokers data).foldl (fun map broker => map.insert broker.brokerId broker) store.brokers⟩ := by
    rw [deserialize_fst, foldl_upsertTopic_eq, MetadataStore.foldl_registerBroker]
  have names := foldl_insert_eq_self_iff name (fun topic => topic) (readableTopics data)
    store.topicsByName
  have ids := foldl_insert_eq_self_iff topicId (fun topic => topic) (readableTopics data) store.topicsById
  have brokers := foldl_insert_eq_self_iff BrokerMetadata.brokerId (fun broker => broker) (readableBrokers data)
    store.brokers
  simp only [Option.map_id_fun', id] at names ids brokers
  rw [shape, bringsNothing_iff, ← names, ← ids, ← brokers]
  constructor
  · intro same
    exact ⟨congrArg MetadataStore.topicsByName same, congrArg MetadataStore.topicsById same,
      congrArg MetadataStore.brokers same⟩
  · rintro ⟨byName, byId, registered⟩
    rw [byName, byId, registered]

def cutSnapshot : Bytes :=
  (serialize .ascending (run {} smallCluster)).dropLast

/-- The store it was taken from has the topic already. -/
theorem deserialize_cutSnapshot : (deserialize cutSnapshot (run {} smallCluster)).1 =
    run {} smallCluster :=
  (deserialize_failed_iff cutSnapshot (run {} smallCluster) (by decide +kernel)).mpr
    (by decide +kernel)

/-- An empty store has the topic afterwards. -/
theorem failed_restore_leaves_topic : ¬∀ (data : Bytes) (store : MetadataStore),
    (deserialize data store).2 = false → (deserialize data store).1 = store := by
  intro all
  exact absurd (all cutSnapshot {} (by decide +kernel)) (by decide +kernel)

end TorrentMq.Consensus
