import ReductStore.Shared.Machine
import ReductStore.Shared.Partition
import ReductStore.Shared.TreeMap
import ReductStore.Shared.File
import ReductStore.Shared.Placement
import ReductStore.Shared.BigEndian
import ReductStore.Shared.Protobuf
import ReductStore.Shared.Ring
import ReductStore.Shared.KeyTable
import ReductStore.Shared.Merge
import ReductStore.Shared.Pieces
import ReductStore.Shared.Glob
import ReductStore.Storage.Record
import ReductStore.Storage.Block
import ReductStore.Storage.Layout
import ReductStore.Storage.Wal
import ReductStore.Storage.Replay
import ReductStore.Storage.Wire
import ReductStore.Storage.TornAppend
import ReductStore.Storage.IndexFile
import ReductStore.Storage.WalDirectory
import ReductStore.Storage.BlockManager
import ReductStore.Storage.Lifecycle
import ReductStore.Storage.WriteRecord
import ReductStore.Storage.BeginWrite
import ReductStore.Storage.RecordUpdates
import ReductStore.Storage.WriterSteps
import ReductStore.Storage.RemoveRecords
import ReductStore.Storage.CopyRecords
import ReductStore.Storage.Removal
import ReductStore.Storage.RemovalSections
import ReductStore.Storage.RecordWriter
import ReductStore.Storage.Compression
import ReductStore.Storage.Durability
import ReductStore.Storage.Partition
import ReductStore.Storage.Allocation
import ReductStore.Storage.Retention
import ReductStore.Storage.Alike
import ReductStore.Storage.LabelUpdates
import ReductStore.Storage.CompactedWriters
import ReductStore.Storage.StoppedRemoval
import ReductStore.Storage.Recovery
import ReductStore.Storage.Versions
import ReductStore.Storage.Coherence
import ReductStore.Storage.Persistence
import ReductStore.Storage.Steady
import ReductStore.Storage.Transitions
import ReductStore.Storage.Primitives
import ReductStore.Storage.Rebuild
import ReductStore.Replication.TransactionLog
import ReductStore.Replication.TransactionQueue
import ReductStore.Replication.Reload
import ReductStore.Replication.Sender
import ReductStore.Replication.Cycle
import ReductStore.Replication.WriteBatch
import ReductStore.Query.Filters
import ReductStore.Shared.Window
import ReductStore.Query.Historical
import ReductStore.Query.Context
import ReductStore.Shared.Gate
import ReductStore.Query.Decision
import ReductStore.Query.Scan
import ReductStore.Query.Aggregate
import ReductStore.Query.AggregateOrder
import ReductStore.Query.AggregateConservation
import ReductStore.Query.NextSections
import ReductStore.Query.Interleaved
import ReductStore.Shared.Text
import ReductStore.Shared.Cut
import ReductStore.Cache
import ReductStore.Auth.TokenRepository
import ReductStore.Api.BatchHeader
import ReductStore.Shared.Percent
import ReductStore.Api.DeltaHeader
import ReductStore.Api.LabelDelta
import ReductStore.Api.DeltaBatch
import ReductStore.Api.BatchBody
import ReductStore.Api.RecordBody
import ReductStore.Api.RangeResponse
import ReductStore.Api.SharedReader
import ReductStore.Api.Limits
import ReductStore.Api.BatchedRead
import ReductStore.Storage.EntryPattern
import ReductStore.Storage.EntrySelection
import ReductStore.Ext.Attachments
import ReductStore.Shared.Traced
import ReductStore.Condition.Integer
import ReductStore.Condition.Duration
import ReductStore.Condition.Value
import ReductStore.Condition.Gate
import ReductStore.Shared.FixedWidth
import ReductStore.Storage.IndexDigest
import ReductStore.Shared.Transducer
import ReductStore.Ext.Pipeline
import ReductStore.Query.ContextWindows
import ReductStore.Storage.EntryInfo
import ReductStore.Storage.DecompressCache
import ReductStore.Lifecycle.Task
import ReductStore.Storage.WriterHandle
import ReductStore.Storage.ReaderCursor
import ReductStore.Api.DeltaRequests
import ReductStore.Api.BatchedTimeout
import ReductStore.Syslog.Aggregate
import ReductStore.Ext.QueryLock
import ReductStore.Api.LimitWindows
import ReductStore.Storage.ReplayTwice
import ReductStore.Storage.FileCache
import ReductStore.LockFile
import ReductStore.Replication.Accounting
import ReductStore.Storage.LabelBatches
import ReductStore.Storage.Quota
import ReductStore.Storage.PartialReads
import ReductStore.Storage.Contents
import ReductStore.Replication.RemoteBucket
