import TorrentMq.Bytes.Decimal
import TorrentMq.Collections.OrderedMap
import TorrentMq.Runs.Interleaving

/-!
# Topic manager

The configurations of the topics of a broker, and what an alteration of one of
their values does in the sections in which it holds the lock.
-/

set_option autoImplicit false

namespace TorrentMq.Broker.Topics

open Bytes

inductive CleanupPolicy where
  | deleteOnly
  | compactOnly
  | compactAndDelete
deriving DecidableEq

inductive CompressionType where
  | none
  | gzip
  | snappy
  | lz4
  | zstd
deriving DecidableEq

structure TopicConfig where
  replicationFactor : Int := 1
  retentionMs : Int := 604800000
  retentionBytes : Int := -1
  segmentBytes : Int := 1073741824
  segmentMs : Int := 604800000
  policy : CleanupPolicy := .deleteOnly
  compression : CompressionType := .none
  maxMessageBytes : Int := 1048588
  minInsyncReplicas : Int := 1
  flushMessages : Int := 9223372036854775807
  flushMs : Int := 9223372036854775807
  preallocate : Bool := false
  indexIntervalBytes : Int := 4096
  minCompactionLagMs : Int := 0
  deleteRetentionMs : Int := 86400000
deriving DecidableEq

inductive ConfigError where
  | keyEmpty
  | nonAlterableKey (key : Bytes)
  | topicNotFound (name : Bytes)
  | unalterableKey (key : Bytes)
  | notANumber (key : Bytes)
  | numberOutOfRange (key : Bytes)
  | belowMinimum (key : Bytes) (minimum : Int)
  | exceedsReplicationFactor
  | invalidPolicy (value : Bytes)
  | invalidCompression (value : Bytes)
deriving DecidableEq

/-!
## Keys
-/

inductive ConfigKey where
  | retentionMs
  | retentionBytes
  | segmentBytes
  | segmentMs
  | maxMessageBytes
  | minInsyncReplicas
  | cleanupPolicy
  | compressionType
  | flushMessages
  | flushMs
  | indexIntervalBytes
  | preallocate
  | deleteRetentionMs
  | minCompactionLagMs
deriving DecidableEq

def kAlterableConfigKeys : List (Bytes × ConfigKey) := [
  -- retention.ms
  ([114, 101, 116, 101, 110, 116, 105, 111, 110, 46, 109, 115], .retentionMs),
  -- retention.bytes
  ([114, 101, 116, 101, 110, 116, 105, 111, 110, 46, 98, 121, 116, 101, 115], .retentionBytes),
  -- segment.bytes
  ([115, 101, 103, 109, 101, 110, 116, 46, 98, 121, 116, 101, 115], .segmentBytes),
  -- segment.ms
  ([115, 101, 103, 109, 101, 110, 116, 46, 109, 115], .segmentMs),
  -- max.message.bytes
  ([109, 97, 120, 46, 109, 101, 115, 115, 97, 103, 101, 46, 98, 121, 116, 101, 115], .maxMessageBytes),
  -- min.insync.replicas
  ([109, 105, 110, 46, 105, 110, 115, 121, 110, 99, 46, 114, 101, 112, 108, 105, 99, 97, 115], .minInsyncReplicas),
  -- cleanup.policy
  ([99, 108, 101, 97, 110, 117, 112, 46, 112, 111, 108, 105, 99, 121], .cleanupPolicy),
  -- compression.type
  ([99, 111, 109, 112, 114, 101, 115, 115, 105, 111, 110, 46, 116, 121, 112, 101], .compressionType),
  -- flush.messages
  ([102, 108, 117, 115, 104, 46, 109, 101, 115, 115, 97, 103, 101, 115], .flushMessages),
  -- flush.ms
  ([102, 108, 117, 115, 104, 46, 109, 115], .flushMs),
  -- index.interval.bytes
  ([105, 110, 100, 101, 120, 46, 105, 110, 116, 101, 114, 118, 97, 108, 46, 98, 121, 116, 101, 115],
    .indexIntervalBytes),
  -- preallocate
  ([112, 114, 101, 97, 108, 108, 111, 99, 97, 116, 101], .preallocate),
  -- delete.retention.ms
  ([100, 101, 108, 101, 116, 101, 46, 114, 101, 116, 101, 110, 116, 105, 111, 110, 46, 109, 115], .deleteRetentionMs),
  -- min.compaction.lag.ms
  ([109, 105, 110, 46, 99, 111, 109, 112, 97, 99, 116, 105, 111, 110, 46, 108, 97, 103, 46, 109, 115],
    .minCompactionLagMs)]

def findKey (key : Bytes) : Option ConfigKey :=
  (kAlterableConfigKeys.find? fun entry => entry.1 = key).map Prod.snd

inductive Setting where
  | retentionMs (value : Int)
  | retentionBytes (value : Int)
  | segmentBytes (value : Int)
  | segmentMs (value : Int)
  | maxMessageBytes (value : Int)
  | minInsyncReplicas (value : Int)
  | cleanupPolicy (value : CleanupPolicy)
  | compressionType (value : CompressionType)
  | flushMessages (value : Int)
  | flushMs (value : Int)
  | indexIntervalBytes (value : Int)
  | preallocate (value : Bool)
  | deleteRetentionMs (value : Int)
  | minCompactionLagMs (value : Int)
deriving DecidableEq

def Setting.key : Setting → ConfigKey
  | .retentionMs _ => .retentionMs
  | .retentionBytes _ => .retentionBytes
  | .segmentBytes _ => .segmentBytes
  | .segmentMs _ => .segmentMs
  | .maxMessageBytes _ => .maxMessageBytes
  | .minInsyncReplicas _ => .minInsyncReplicas
  | .cleanupPolicy _ => .cleanupPolicy
  | .compressionType _ => .compressionType
  | .flushMessages _ => .flushMessages
  | .flushMs _ => .flushMs
  | .indexIntervalBytes _ => .indexIntervalBytes
  | .preallocate _ => .preallocate
  | .deleteRetentionMs _ => .deleteRetentionMs
  | .minCompactionLagMs _ => .minCompactionLagMs

def Setting.apply (cfg : TopicConfig) : Setting → TopicConfig
  | .retentionMs value => { cfg with retentionMs := value }
  | .retentionBytes value => { cfg with retentionBytes := value }
  | .segmentBytes value => { cfg with segmentBytes := value }
  | .segmentMs value => { cfg with segmentMs := value }
  | .maxMessageBytes value => { cfg with maxMessageBytes := value }
  | .minInsyncReplicas value => { cfg with minInsyncReplicas := value }
  | .cleanupPolicy value => { cfg with policy := value }
  | .compressionType value => { cfg with compression := value }
  | .flushMessages value => { cfg with flushMessages := value }
  | .flushMs value => { cfg with flushMs := value }
  | .indexIntervalBytes value => { cfg with indexIntervalBytes := value }
  | .preallocate value => { cfg with preallocate := value }
  | .deleteRetentionMs value => { cfg with deleteRetentionMs := value }
  | .minCompactionLagMs value => { cfg with minCompactionLagMs := value }

def TopicConfig.read (cfg : TopicConfig) : ConfigKey → Setting
  | .retentionMs => .retentionMs cfg.retentionMs
  | .retentionBytes => .retentionBytes cfg.retentionBytes
  | .segmentBytes => .segmentBytes cfg.segmentBytes
  | .segmentMs => .segmentMs cfg.segmentMs
  | .maxMessageBytes => .maxMessageBytes cfg.maxMessageBytes
  | .minInsyncReplicas => .minInsyncReplicas cfg.minInsyncReplicas
  | .cleanupPolicy => .cleanupPolicy cfg.policy
  | .compressionType => .compressionType cfg.compression
  | .flushMessages => .flushMessages cfg.flushMessages
  | .flushMs => .flushMs cfg.flushMs
  | .indexIntervalBytes => .indexIntervalBytes cfg.indexIntervalBytes
  | .preallocate => .preallocate cfg.preallocate
  | .deleteRetentionMs => .deleteRetentionMs cfg.deleteRetentionMs
  | .minCompactionLagMs => .minCompactionLagMs cfg.minCompactionLagMs

/-!
## Values
-/

def isSpace (byte : UInt8) : Bool := byte = 32 ∨ 9 ≤ byte ∧ byte ≤ 13

def isDigit (byte : UInt8) : Bool := 48 ≤ byte ∧ byte ≤ 57

def readSign : Bytes → Bool × Bytes
  | 45 :: rest => (true, rest)
  | 43 :: rest => (false, rest)
  | text => (false, text)

def readNumber (text : Bytes) : Option Int :=
  let (negative, rest) := readSign (text.dropWhile isSpace)
  let digits := rest.takeWhile isDigit
  if digits.isEmpty then none
  else some (if negative then -(readDecimal digits : Int) else readDecimal digits)

def convert (bits : Nat) (key value : Bytes) : Except ConfigError Int :=
  match readNumber value with
  | none => .error (.notANumber key)
  | some number =>
    if -2 ^ (bits - 1) ≤ number ∧ number < 2 ^ (bits - 1) then .ok number else .error (.numberOutOfRange key)

def stoll : Bytes → Bytes → Except ConfigError Int := convert 64

def stoi : Bytes → Bytes → Except ConfigError Int := convert 32

def atLeast (minimum : Int) (key : Bytes) (number : Except ConfigError Int) : Except ConfigError Int := do
  let value ← number
  if value < minimum then throw (.belowMinimum key minimum)
  return value

def parseMinInsyncReplicas (replicationFactor : Int) (key value : Bytes) : Except ConfigError Int := do
  let replicas := (← stoi key value).bmod (2 ^ 16)
  if replicas < 1 then throw (.belowMinimum key 1)
  if replicationFactor < replicas then throw .exceedsReplicationFactor
  return replicas

def parseCleanupPolicy (value : Bytes) : Except ConfigError CleanupPolicy :=
  -- delete
  if value = [100, 101, 108, 101, 116, 101] then .ok .deleteOnly
  -- compact
  else if value = [99, 111, 109, 112, 97, 99, 116] then .ok .compactOnly
  -- compact,delete and delete,compact
  else if value = [99, 111, 109, 112, 97, 99, 116, 44, 100, 101, 108, 101, 116, 101] ∨
      value = [100, 101, 108, 101, 116, 101, 44, 99, 111, 109, 112, 97, 99, 116] then .ok .compactAndDelete
  else .error (.invalidPolicy value)

def parseCompressionType (value : Bytes) : Except ConfigError CompressionType :=
  -- none and uncompressed
  if value = [110, 111, 110, 101] ∨ value = [117, 110, 99, 111, 109, 112, 114, 101, 115, 115, 101, 100] then .ok .none
  -- gzip
  else if value = [103, 122, 105, 112] then .ok .gzip
  -- snappy
  else if value = [115, 110, 97, 112, 112, 121] then .ok .snappy
  -- lz4
  else if value = [108, 122, 52] then .ok .lz4
  -- zstd
  else if value = [122, 115, 116, 100] then .ok .zstd
  -- producer
  else if value = [112, 114, 111, 100, 117, 99, 101, 114] then .ok .none
  else .error (.invalidCompression value)

def parseFlag (value : Bytes) : Bool := value = [116, 114, 117, 101] ∨ value = [49]

def parseSetting (replicationFactor : Int) (key value : Bytes) : ConfigKey → Except ConfigError Setting
  | .retentionMs => (atLeast (-1) key (stoll key value)).map .retentionMs
  | .retentionBytes => (atLeast (-1) key (stoll key value)).map .retentionBytes
  | .segmentBytes => (atLeast 1024 key (stoll key value)).map .segmentBytes
  | .segmentMs => (stoll key value).map .segmentMs
  | .maxMessageBytes => (atLeast 0 key (stoll key value)).map .maxMessageBytes
  | .minInsyncReplicas => (parseMinInsyncReplicas replicationFactor key value).map .minInsyncReplicas
  | .cleanupPolicy => (parseCleanupPolicy value).map .cleanupPolicy
  | .compressionType => (parseCompressionType value).map .compressionType
  | .flushMessages => (stoll key value).map .flushMessages
  | .flushMs => (stoll key value).map .flushMs
  | .indexIntervalBytes => (atLeast 0 key (stoi key value)).map .indexIntervalBytes
  | .preallocate => .ok (.preallocate (parseFlag value))
  | .deleteRetentionMs => (atLeast 0 key (stoll key value)).map .deleteRetentionMs
  | .minCompactionLagMs => (atLeast 0 key (stoll key value)).map .minCompactionLagMs

def applyTopicConfigOverride (cfg : TopicConfig) (key value : Bytes) : Except ConfigError TopicConfig :=
  match findKey key with
  | none => .error (.unalterableKey key)
  | some name => (parseSetting cfg.replicationFactor key value name).map fun setting => setting.apply cfg

/-!
## Alterations
-/

structure TopicCacheEntry where
  config : TopicConfig := {}
  generation : Int32 := 0
  markedForDeletion : Bool := false
  dynamicConfig : OrderedMap Bytes Bytes := .empty

structure TopicManager where
  topics : OrderedMap Bytes TopicCacheEntry := .empty

/-- The locked sections of an update: it reads the configuration in one and writes it back in the other. -/
inductive Point where
  | lookup (name key value : Bytes)
  | writeBack (name key value : Bytes) (cfgCopy : TopicConfig)

abbrev Answer := Except ConfigError Unit

abbrev Stage := Interleaving.Stage Point Answer

abbrev Pool := Interleaving.Pool TopicManager Point Answer

abbrev Event := Interleaving.Event Point Unit

namespace TopicManager

variable (manager : TopicManager)

/-- Copies the configuration under the shared lock, and alters the copy. The proposal that follows
does not stop an alteration. -/
def lookup (name key value : Bytes) : Stage :=
  if key.isEmpty then .returned (.error .keyEmpty)
  else if (findKey key).isNone then .returned (.error (.nonAlterableKey key))
  else
    match manager.topics.find? name with
    | none => .returned (.error (.topicNotFound name))
    | some entry =>
      if entry.markedForDeletion then .returned (.error (.topicNotFound name))
      else
        match applyTopicConfigOverride entry.config key value with
        | .error error => .returned (.error error)
        | .ok cfgCopy => .running (.writeBack name key value cfgCopy)

def writeBack (name key value : Bytes) (cfgCopy : TopicConfig) : TopicManager :=
  { manager with
    topics := manager.topics.modify name fun entry =>
      { entry with
        config := cfgCopy
        dynamicConfig := entry.dynamicConfig.insert key value
        generation := entry.generation + 1 } }

end TopicManager

def alterTopicConfig (point : Point) (_ : Unit) (manager : TopicManager) : TopicManager × Stage :=
  match point with
  | .lookup name key value => (manager, manager.lookup name key value)
  | .writeBack name key value cfgCopy => (manager.writeBack name key value cfgCopy, .returned (.ok ()))

def step : Pool → Event → Pool := Interleaving.step alterTopicConfig

end TorrentMq.Broker.Topics
