import ChimeraMQ.Broker.TenantOwner
import ChimeraMQ.Raft.Safety
import ChimeraMQ.Raft.CatchUp
import ChimeraMQ.Warm.LSMClose
import ChimeraMQ.Raft.SnapshotRestart
import ChimeraMQ.Queue.Conservation
import ChimeraMQ.Queue.PriorityOrder
import ChimeraMQ.Queue.Retries
import ChimeraMQ.Queue.Identity
import ChimeraMQ.Replication.Fencing
import ChimeraMQ.Replication.Quorum
import ChimeraMQ.Replication.FollowerLog
import ChimeraMQ.Cold.RoundTrip
import ChimeraMQ.Tier.WarmToCold
import ChimeraMQ.Stream.Balance
import ChimeraMQ.Stream.Commit
import ChimeraMQ.Stream.LongPoll
import ChimeraMQ.Stream.RaftOffsets
import ChimeraMQ.Stream.StuckFetch
import ChimeraMQ.Queue.Delayed
import ChimeraMQ.Protocol.WebSocketBinary
import ChimeraMQ.Protocol.ChimeraBatch
import ChimeraMQ.Protocol.Subscriptions
import ChimeraMQ.Protocol.ClientRegistry
import ChimeraMQ.Cluster.GossipConvergence
import ChimeraMQ.Geo.Accounting
import ChimeraMQ.Geo.Datacenters
import ChimeraMQ.Geo.Mirror
import ChimeraMQ.Broker.TopicLife
import ChimeraMQ.Broker.Expirer
import ChimeraMQ.DeadLetter.MirrorRuns
import ChimeraMQ.Schema.RegistryIds
import ChimeraMQ.Processing.Join
import ChimeraMQ.Storage.WalTruncate
import ChimeraMQ.Storage.CompactionOffsets
import ChimeraMQ.Stream.CompactedFetch
import ChimeraMQ.Protocol.AmqpLink
import ChimeraMQ.Protocol.MqttSubscribe
import ChimeraMQ.Protocol.StompSafety
import ChimeraMQ.Broker.DedupEviction
import ChimeraMQ.DeadLetter.Replay
import ChimeraMQ.Auth.Scram
import ChimeraMQ.Schema.ProtobufScan
import ChimeraMQ.Cluster.Refutation
import ChimeraMQ.Queue.Exchange
import ChimeraMQ.Processing.Overlap
import ChimeraMQ.Processing.Sessions
import ChimeraMQ.Processing.StateStore
import ChimeraMQ.Broker.PublishRate
import ChimeraMQ.Raft.LogBinary
import ChimeraMQ.Message.Uuid
import ChimeraMQ.Warm.BlockCache
