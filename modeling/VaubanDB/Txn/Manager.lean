import VaubanDB.Memory.Owned
import VaubanDB.Txn.LockSafety

/-!
The transaction manager over the in-memory storage and the lock manager
(`vauban-txn/src/manager.rs`, `snapshot_modes.rs`).

What is done under the lock of the manager is one event.  A `commit` is three of them: it marks the
transaction, commits it in the storage without the lock, and then releases its locks and removes it
from the list, or takes the mark back when the commit was refused.  Writes and lock requests go
between any two events.  The deferred drops and the compensations are left out: what they can do to
a commit, refuse it, is a choice of the run.
-/

namespace VaubanDB

open MemoryStorage

/-! ### Levels and options -/

inductive IsolationLevel where
  | readUncommitted
  | readCommitted
  | repeatableRead
  | serializable
  | snapshot
  deriving DecidableEq, Repr

/-- Which engine serves a read. -/
inductive VersioningMode where
  | locking
  | statementSnapshot
  | txnSnapshot
  deriving DecidableEq, Repr

structure VersioningOptions where
  allowSnapshotIsolation : Bool
  readCommittedSnapshot : Bool
  deriving DecidableEq, Repr

namespace VersioningOptions

def off : VersioningOptions := ⟨false, false⟩

/-- The mode the reads at a level are served at. -/
def modeFor (o : VersioningOptions) : IsolationLevel → VersioningMode
  | .snapshot => if o.allowSnapshotIsolation then .txnSnapshot else .locking
  | .readCommitted => if o.readCommittedSnapshot then .statementSnapshot else .locking
  | .readUncommitted | .repeatableRead | .serializable => .locking

end VersioningOptions

/-- The database `begin` opens on. -/
def defaultDb : DbId := 1

/-! ### The state of the manager -/

structure OpenTxn where
  id : TxnId
  isolation : IsolationLevel
  log : List SavepointId
  db : DbId
  /-- The snapshot of the transaction, once it has one. -/
  pinned : Option Snapshot
  /-- The snapshot of the last statement, in the modes that take one per statement. -/
  last : Option Snapshot
  /-- A commit is ending the transaction. -/
  ending : Bool
  deriving DecidableEq

/-- What the manager knows of the transactions it started. -/
structure ManagerState where
  nextId : TxnId
  opened : List OpenTxn
  deriving DecidableEq

/-- What a transaction may do with a row it wants to write. -/
inductive WriteDecision where
  | proceed
  | conflict
  | reread (id : RowId)
  deriving DecidableEq

namespace ManagerState

def initial : ManagerState := ⟨1, []⟩

variable (s : ManagerState)

def ids : List TxnId := s.opened.map OpenTxn.id

def find (id : TxnId) : Option OpenTxn := s.opened.find? fun o => o.id = id

/-- The entry of an open transaction that no commit is ending. -/
def live (id : TxnId) : Option OpenTxn := (s.find id).filter fun o => !o.ending

def modify (id : TxnId) (f : OpenTxn → OpenTxn) : ManagerState :=
  { s with opened := s.opened.map fun o => if o.id = id then f o else o }

def remove (id : TxnId) : ManagerState :=
  { s with opened := s.opened.eraseP fun o => o.id = id }

def begin (db : DbId) (isolation : IsolationLevel) : ManagerState :=
  ⟨s.nextId + 1, s.opened ++ [⟨s.nextId, isolation, [], db, none, none, false⟩]⟩

def snapshotFor (own : TxnId) : Snapshot :=
  { xmin := s.ids.min?.getD s.nextId
    xmax := s.nextId
    active := s.ids.filter fun id => id != own
    own := own }

def status (id : TxnId) : TxnStatus := if (s.find id).isSome then .inProgress else .committed

/-- The snapshot the next statement reads through, and the state after it was handed out. -/
def statementSnapshot (mode : OpenTxn → VersioningMode) (id : TxnId) : Snapshot × ManagerState :=
  match s.find id with
  | none => (s.snapshotFor id, s)
  | some o =>
    match o.pinned with
    | some pinned => (pinned, s)
    | none =>
      if mode o = .txnSnapshot then
        (s.snapshotFor id, s.modify id fun o => { o with pinned := some (s.snapshotFor id) })
      else (s.snapshotFor id, s.modify id fun o => { o with last := some (s.snapshotFor id) })

end ManagerState

/-! ### The manager, the storage and the locks -/

/-- A commit between its first and its last section. -/
structure CommitCall where
  txn : TxnId
  /-- The log, out of the entry for as long as the commit runs. -/
  log : List SavepointId
  /-- Whether the storage has committed the transaction, once it has answered. -/
  outcome : Option Bool
  deriving DecidableEq

/-- The manager with its storage and its locks.  The last five fields are known to nobody. -/
structure TxnSystem where
  storage : Inner
  state : ManagerState
  versioning : OrderedMap DbId VersioningOptions
  locks : LockWorld
  commits : List CommitCall
  history : History
  cleared : List (TxnId × TableId × RowId)
  clock : ℕ
  pinnedAt : OrderedMap TxnId ℕ
  closedAt : OrderedMap TxnId ℕ

/-- What happens next. -/
inductive TxnEvent where
  | setVersioningOptions (db : DbId) (options : VersioningOptions)
  | begin (isolation : IsolationLevel)
  | beginIn (db : DbId) (isolation : IsolationLevel)
  | statementSnapshot (txn : TxnId)
  /-- The first section of a commit. -/
  | commitMark (txn : TxnId)
  /-- The commit of the storage; `refused` when a deferred drop fails before it. -/
  | commitStorage (txn : TxnId) (refused : Bool)
  /-- The last section of a commit; the locks are released in the order of the hash map. -/
  | commitFinish (txn : TxnId) (order : List LockResource)
  | rollback (txn : TxnId) (order : List LockResource)
  | savepoint (txn : TxnId)
  | rollbackTo (txn : TxnId) (sp : SavepointId)
  | checkWriteConflict (txn : TxnId) (table : TableId) (id : RowId)
  | insert (txn : TxnId) (table : TableId) (row : Row)
  | update (txn : TxnId) (table : TableId) (id : RowId) (row : Row)
  | delete (txn : TxnId) (table : TableId) (id : RowId)
  | lock (txn : TxnId) (r : LockResource) (mode : LockMode) (givesUp : Bool)
  | wake (c : LockCall) (givesUp : Bool)
  | unlock (txn : TxnId) (r : LockResource)

namespace TxnSystem

/-- A manager over a storage where nobody has written yet. -/
def start (storage : Inner) : TxnSystem :=
  ⟨storage, .initial, .empty, .initial, [], .empty, [], 0, .empty, .empty⟩

variable (w : TxnSystem)

def versioningOptions (db : DbId) : VersioningOptions := (w.versioning.get? db).getD .off

def modeOf (o : OpenTxn) : VersioningMode := (w.versioningOptions o.db).modeFor o.isolation

def statementSnapshot (txn : TxnId) : Snapshot := (w.state.statementSnapshot w.modeOf txn).1

def checkWriteConflict (txn : TxnId) (table : TableId) (id : RowId) : SqlResult WriteDecision :=
  match w.state.find txn with
  | none => bug s!"TransactionManager::check_write_conflict: transaction {txn} is not open"
  | some o =>
    match o.pinned.or o.last with
    | none => .ok .proceed
    | some snap => do
        match ← w.storage.latestVersion table id with
        | none => .ok .proceed
        | some (writer, _) =>
          if writer = txn ∨ snap.isSettled w.state.status writer then .ok .proceed
          else .ok (match w.modeOf o with
            | .txnSnapshot => .conflict
            | .statementSnapshot | .locking => .reread id)

/-- The transaction got its own snapshot with this call. -/
def pins (txn : TxnId) : Bool :=
  (w.state.find txn).any fun o => o.pinned.isNone && w.modeOf o == .txnSnapshot

/-- A transaction that `storage` has ended is closed: its locks are released and its entry is
removed. -/
def close (txn : TxnId) (order : List LockResource) : Option TxnSystem :=
  (w.locks.exec (.releaseAll txn order)).map fun locks =>
    { w with
      locks
      state := w.state.remove txn
      closedAt := w.closedAt.insert txn w.clock }

/-- The commit of `txn` that is waiting for `storage`, or for its last section. -/
def commitOf (txn : TxnId) : Option CommitCall := w.commits.find? fun c => c.txn = txn

def answered (txn : TxnId) (outcome : Bool) : TxnSystem :=
  { w with commits := w.commits.map fun c =>
      if c.txn = txn then { c with outcome := some outcome } else c }

def write (txn : TxnId) (c : Call) : Option TxnSystem :=
  if (w.state.live txn).isSome then some { w with storage := c.after w.storage } else none

def locking (a : LockAction) : Option TxnSystem :=
  (w.locks.exec a).map fun locks => { w with locks }

/-- The last section of a commit that the storage has answered. -/
def finish (c : CommitCall) (committed : Bool) (order : List LockResource) : Option TxnSystem :=
  let w' := { w with commits := w.commits.erase c }
  if committed then w'.close c.txn order
  else some { w' with
    state := w.state.modify c.txn fun o => { o with ending := false, log := c.log } }

/-- What an event makes of the system, the clock aside; `none` when it cannot happen. -/
def event : TxnEvent → Option TxnSystem
  | .setVersioningOptions db options =>
    some { w with versioning := w.versioning.insert db options }
  | .begin isolation => some { w with state := w.state.begin defaultDb isolation }
  | .beginIn db isolation =>
    if isolation = .snapshot ∧ (w.versioningOptions db).allowSnapshotIsolation = false then some w
    else some { w with state := w.state.begin db isolation }
  | .statementSnapshot txn =>
    some { w with
      state := (w.state.statementSnapshot w.modeOf txn).2
      pinnedAt := if w.pins txn then w.pinnedAt.insert txn w.clock else w.pinnedAt }
  | .commitMark txn =>
    match w.state.live txn with
    | none => some w
    | some o =>
      some { w with
        state := w.state.modify txn fun o => { o with ending := true, log := [] }
        commits := w.commits ++ [⟨txn, o.log, none⟩] }
  | .commitStorage txn refused =>
    match w.commitOf txn with
    | some ⟨_, _, none⟩ =>
      if refused then some (w.answered txn false)
      else
        match MemoryStorage.commit txn w.storage with
        | .ok _ s =>
          some { w.answered txn true with
            storage := s
            history := w.history.after (.commit txn) }
        | .error _ s => some { w.answered txn false with storage := s }
    | _ => none
  | .commitFinish txn order =>
    match w.commitOf txn with
    | some c => c.outcome.bind fun committed => w.finish c committed order
    | none => none
  | .rollback txn order =>
    match w.state.live txn with
    | none => some w
    | some _ =>
      match MemoryStorage.rollback txn w.storage with
      | .ok _ s =>
        { w with storage := s, history := w.history.after (.rollback txn) }.close txn order
      | .error _ s =>
        some { w with storage := s, history := w.history.after (.rollback txn) }
  | .savepoint txn =>
    match w.state.live txn with
    | none => some w
    | some _ =>
      match MemoryStorage.savepoint txn w.storage with
      | .ok sp s =>
        some { w with
          storage := s
          state := w.state.modify txn fun o => { o with log := o.log ++ [sp] } }
      | .error _ s => some { w with storage := s }
  | .rollbackTo txn sp =>
    match w.state.live txn with
    | none => some w
    | some o =>
      match o.log.idxOf? sp with
      | none => some w
      | some pos =>
        some { w with
          storage := (MemoryStorage.rollbackTo txn sp w.storage).state
          state := w.state.modify txn fun o => { o with log := o.log.take (pos + 1) } }
  | .checkWriteConflict txn table id =>
    if w.checkWriteConflict txn table id = .ok .proceed then
      some { w with cleared := (txn, table, id) :: w.cleared }
    else some w
  | .insert txn table row => w.write txn (.insert txn table row)
  | .update txn table id row => w.write txn (.update txn table id row)
  | .delete txn table id => w.write txn (.delete txn table id)
  | .lock txn r mode givesUp => w.locking (.request txn r mode givesUp)
  | .wake c givesUp => w.locking (.wake c givesUp)
  | .unlock txn r => w.locking (.unlock txn r)

def exec (e : TxnEvent) : Option TxnSystem :=
  (w.event e).map fun w' => { w' with clock := w.clock + 1 }

end TxnSystem

/-- The manager as a machine, over a storage that has its tables and no rows yet. -/
def transactionManager (storage : Inner) : Machine TxnSystem TxnEvent :=
  ⟨.start storage, TxnSystem.exec⟩

end VaubanDB
