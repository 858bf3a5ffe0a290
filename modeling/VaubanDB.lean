import VaubanDB.Types.SortKeyOrder
import VaubanDB.Types.NumberDate
import VaubanDB.Types.Like
import VaubanDB.Memory.Seek
import VaubanDB.Memory.UniqueKeys
import VaubanDB.Txn.DeadlockSafety
import VaubanDB.Txn.FirstCommitter
import VaubanDB.Txn.Escalation
import VaubanDB.Txn.Actions
import VaubanDB.Disk.GroupCommit
import VaubanDB.Disk.BufferCoherence
import VaubanDB.Disk.AllocatorSafety
import VaubanDB.Disk.Canonical
import VaubanDB.Disk.PageDelta
import VaubanDB.Disk.BTreeRuns
import VaubanDB.Tds.RowLayout
import VaubanDB.Tds.Handshake
import VaubanDB.Types.Arith
import VaubanDB.Exec.Identity
import VaubanDB.Exec.Top
import VaubanDB.Parse.IfChain
