import TarantoolStorage.Binding.Errors
import TarantoolStorage.Binding.Batch
import TarantoolStorage.Raft.Cluster
import TarantoolStorage.Limbo.Finality
import TarantoolStorage.Vinyl.ColumnMask
import TarantoolStorage.Index.KeyHash
import TarantoolStorage.Wal.Regroup
import TarantoolStorage.Wal.Outcome
import TarantoolStorage.Gc.Safety
import TarantoolStorage.Journal.Cascade
import TarantoolStorage.Journal.Accounting
import TarantoolStorage.Key.Reference
import TarantoolStorage.Binding.Drain
import TarantoolStorage.Binding.Filter
import TarantoolStorage.Sql.Mem
import TarantoolStorage.Raft.Promotion
import TarantoolStorage.Access.Grants
import TarantoolStorage.Vclock.Text
import TarantoolStorage.Xrow.Dml
import TarantoolStorage.Xrow.Replication
import TarantoolStorage.Vinyl.DeferredDelete
import TarantoolStorage.Update.Arith
import TarantoolStorage.Vinyl.CompactionPriority
import TarantoolStorage.Vinyl.RangeTree
import TarantoolStorage.Vinyl.WriteSet
import TarantoolStorage.Swim
import TarantoolStorage.Sequence
import TarantoolStorage.Heap
