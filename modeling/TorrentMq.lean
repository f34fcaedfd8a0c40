import TorrentMq.Consensus.RaftSnapshotProperties
import TorrentMq.Consensus.RaftConfigFenceProperties
import TorrentMq.Consensus.DiskRaftLogRecovery
import TorrentMq.Consensus.MembershipManagerProperties
import TorrentMq.Consensus.RaftCommitProperties
import TorrentMq.Storage.LogSnapshotProperties
import TorrentMq.Storage.OffsetIndex
import TorrentMq.Storage.TimeIndex
import TorrentMq.Storage.CompactorProperties
import TorrentMq.Storage.CompactionRecovery
import TorrentMq.Network.ProduceRoundTrip
import TorrentMq.Network.MessageCodecProperties
import TorrentMq.Broker.AssignorsProperties
import TorrentMq.Broker.GroupLeaderProperties
import TorrentMq.Client.GenerationFencing
import TorrentMq.Client.FetchSessionProperties
import TorrentMq.Client.GroupAssignmentProperties
import TorrentMq.Broker.RebalanceBarrier
import TorrentMq.Broker.PartitionBookkeeping
import TorrentMq.Broker.TopicConfigUpdates
import TorrentMq.Broker.FencingTokens
import TorrentMq.Broker.ProducerFencing
import TorrentMq.Broker.TransactionBookkeeping
import TorrentMq.Broker.TimeoutAborts
import TorrentMq.Broker.LeadershipValidity
import TorrentMq.Broker.LeaderEpochs
import TorrentMq.Consensus.RaftQuorums
import TorrentMq.Consensus.DiskRaftLogReads
import TorrentMq.Security.AclPrecedence
import TorrentMq.Broker.TopicTableProperties
import TorrentMq.Security.ScramSessionOwnership
import TorrentMq.Schema.RegistrationProperties
import TorrentMq.Schema.SchemaIndex
import TorrentMq.Proxy.MqttStores
import TorrentMq.Consensus.DiskRaftLogFailures
import TorrentMq.Consensus.MetadataRestoreFailures
import TorrentMq.Consensus.RaftBacktracking
import TorrentMq.Storage.LogManagerRuns
import TorrentMq.Consensus.RaftSnapshotFileProperties
import TorrentMq.Consensus.RaftSnapshotTransferProperties
import TorrentMq.Consensus.ElectionVoteCounting
import TorrentMq.Consensus.HeartbeatCommit
import TorrentMq.Storage.LogManagerAtomicity
import TorrentMq.Storage.SegmentTruncation
import TorrentMq.Storage.SegmentTimestamps
import TorrentMq.Storage.LogManagerCompleteness
import TorrentMq.Storage.RecordBatchBounds
import TorrentMq.Storage.SegmentRangeProperties
import TorrentMq.Storage.BatchCacheRecency
import TorrentMq.Storage.PageCacheMemory
import TorrentMq.Storage.LogCleaner
import TorrentMq.Network.FetchRequestAgreement
import TorrentMq.Storage.LogRecovery
import TorrentMq.Streams.Windows
import TorrentMq.Common.Iobuf
import TorrentMq.Broker.RoundRobinPlacement
import TorrentMq.Client.ProtocolElection
import TorrentMq.Client.SyncRetry
import TorrentMq.Client.OffsetStore
import TorrentMq.Broker.RackPlacement
import TorrentMq.Broker.PartitionEnrollment
