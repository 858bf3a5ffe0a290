import VaubanDB.Memory.Index

/-!
The in-memory engine (`vauban-storage/src/memory/mod.rs`): the state behind the lock and the
operations of the `Storage` trait on it.

A call holds the lock from its first read to its last write, so a call is one step.  The reads
are functions of the state; the writes are computations that keep the state they have reached
when they fail, since an undo or a vacuum can stop half way (`Engine`).
-/

namespace VaubanDB

structure Database where
  name : String
  tables : OrderedMap TableId Unit
  deriving DecidableEq

/-- Everything behind the lock. -/
structure Inner where
  databases : OrderedMap DbId Database
  tables : OrderedMap TableId Table
  indexes : OrderedMap IndexId Index
  txns : OrderedMap TxnId TxnState
  nextDbId : ℕ
  nextTableId : ℕ
  nextIndexId : ℕ
  nextSavepointId : ℕ
  deriving DecidableEq

/-- An index entry prepared before any mutation: its index, its position and itself. -/
abbrev PlannedEntry := IndexId × ℕ × IndexEntry

/-- A call of the engine: it may fail, and an error keeps the state reached so far. -/
abbrev Engine := EStateM SqlError Inner

def statusIn (txns : OrderedMap TxnId TxnState) (t : TxnId) : TxnStatus :=
  match txns.get? t with
  | some state => state.status
  | none => .committed

def applyEntries (indexes : OrderedMap IndexId Index) (planned : List PlannedEntry) :
    OrderedMap IndexId Index :=
  planned.foldl (fun indexes (id, pos, entry) =>
    indexes.modify id fun ix =>
      { ix with entries := ix.entries.insertIdx (min pos ix.entries.length) entry }) indexes

/-- Hands out the next value of an id counter of `2^bits` values. -/
def nextId (bits counter : ℕ) (what : String) : SqlResult (ℕ × ℕ) :=
  if counter + 1 < 2 ^ bits then .ok (counter, counter + 1)
  else bug s!"{what} id space exhausted"

namespace Inner

def empty : Inner := ⟨.empty, .empty, .empty, .empty, 1, 1, 1, 1⟩

variable (s : Inner)

def status (t : TxnId) : TxnStatus := statusIn s.txns t

def table (table : TableId) : SqlResult Table :=
  match s.tables.get? table with
  | some t => .ok t
  | none => bug s!"unknown table {table}"

def index (index : IndexId) : SqlResult Index :=
  match s.indexes.get? index with
  | some ix => .ok ix
  | none => bug s!"unknown index {index}"

def alreadyFinished {α : Type} (txn : TxnId) (status : TxnStatus) : SqlResult α :=
  bug s!"transaction {txn} is already {status}"

/-- Refuses a transaction that already committed or rolled back, without registering it. -/
def checkWritable (txn : TxnId) : SqlResult Unit :=
  match s.txns.get? txn with
  | some state => if state.isFinished then alreadyFinished txn state.status else .ok ()
  | none => .ok ()

def checkArity (table : TableId) (row : Row) : SqlResult Unit := do
  let t ← s.table table
  if row.length ≠ t.arity then
    let given := row.length
    let wanted := t.arity
    bug s!"row has {given} values, table {table} has {wanted} columns"
  else .ok ()

/-- The precondition of a write: the latest version has no deleter, and a creator that is `txn` or
committed. -/
def checkCurrent (txn : TxnId) (table : TableId) (id : RowId) : SqlResult Unit := do
  let t ← s.table table
  match t.latest id with
  | none => bug s!"unknown row {id} in table {table}"
  | some v =>
    match v.xmax with
    | some x =>
      bug (s!"row {id} of table {table} is stale: its latest version was replaced or deleted " ++
        s!"by transaction {x}")
    | none =>
      if v.xmin ≠ txn ∧ s.status v.xmin ≠ .committed then
        let writer := v.xmin
        let fate := s.status v.xmin
        bug s!"row {id} of table {table} is being written by transaction {writer}, which is {fate}"
      else .ok ()

def isDuplicate (ix : Index) (key : List Value) (rows : OrderedMap RowId (List Version))
    (txn : TxnId) (replacing : Option RowId) : SqlResult Bool :=
  if ix.shape.unique then ix.hasLiveDuplicate key rows (some txn) s.status replacing
  else .ok false

/-- Prepares the entry of one index for a version about to be created. -/
def planEntry (txn : TxnId) (table : TableId) (t : Table) (row : Row) (id : RowId) (seq : ℕ)
    (replacing : Option RowId) (indexId : IndexId) : SqlResult PlannedEntry :=
  match s.indexes.get? indexId with
  | none => corruption s!"table {table} references unknown index {indexId}"
  | some ix => do
      let key ← ix.order.extract row
      let duplicate ← s.isDuplicate ix key t.rows txn replacing
      if duplicate then .error (.duplicateKeyIndex (toString table) (toString indexId) key)
      else
        let pos ← ix.positionFor key id seq
        .ok (indexId, pos, ⟨key, id, seq⟩)

def planEntries (txn : TxnId) (table : TableId) (row : Row) (id : RowId) (seq : ℕ)
    (replacing : Option RowId) : SqlResult (List PlannedEntry) := do
  let t ← s.table table
  t.indexes.keys.mapM (s.planEntry txn table t row id seq replacing)

def visible (snap : Snapshot) (versions : List Version) : Option Version :=
  versions.find? fun v => snap.isVisible s.status v.xmin v.xmax

/-- Checks the shape of a table to create and builds the comparator of its clustered key. -/
def checkShape (shape : TableShape) : SqlResult (Option KeyOrder) :=
  if shape.columns.isEmpty then bug "table shape has no column"
  else
    match shape.clusteredKey with
    | some key => (KeyOrder.new "clustered key" key shape).map some
    | none => .ok none

/-- Adds the entry of one version, unless its transaction aborted, to an index being built. -/
def indexVersion (ix : Index) (item : RowId × Version) : SqlResult Index :=
  if s.status item.2.xmin = .aborted then .ok ix
  else do
    let key ← ix.order.extract item.2.data
    let pos ← ix.positionFor key item.1 item.2.seq
    .ok { ix with entries := ix.entries.insertIdx pos ⟨key, item.1, item.2.seq⟩ }

def versionsOf (t : Table) : List (RowId × Version) :=
  t.rows.entries.flatMap fun (id, versions) => versions.map fun v => (id, v)

/-- The key two rows share in a new unique index, if there is one. -/
def duplicateKey (ix : Index) (rows : OrderedMap RowId (List Version)) :
    SqlResult (Option (List Value)) :=
  if ix.shape.unique then ix.firstDuplicateKey rows s.status else .ok none

/-- Everything `createIndex` computes before it changes anything. -/
def prepareIndex (table : TableId) (shape : IndexShape) : SqlResult (IndexId × ℕ × Index) := do
  let t ← s.table table
  let order ← KeyOrder.new "index key" shape.columns t.shape
  match shape.included.find? fun inc => decide (t.arity ≤ inc) with
  | some inc =>
    let arity := t.arity
    bug s!"included column {inc} out of range ({arity} columns)"
  | none => do
      let (id, next) ← nextId 32 s.nextIndexId "index"
      let ix ← (versionsOf t).foldlM s.indexVersion (Index.new table shape order)
      let duplicate ← s.duplicateKey ix t.rows
      match duplicate with
      | some key => .error (.duplicateKeyIndex (toString table) (toString id) key)
      | none => .ok (id, next, ix)

/-! ### Reads -/

def listDatabases : SqlResult (List (DbId × String)) :=
  .ok (s.databases.entries.map fun (id, d) => (id, d.name))

def listTables (db : DbId) : SqlResult (List (TableId × TableShape)) :=
  match s.databases.get? db with
  | none => bug s!"unknown database {db}"
  | some database =>
    database.tables.keys.mapM fun id =>
      match s.tables.get? id with
      | none => corruption s!"database {db} references unknown table {id}"
      | some t => .ok (id, t.shape)

def listIndexes (table : TableId) : SqlResult (List (IndexId × IndexShape)) := do
  let t ← s.table table
  t.indexes.keys.mapM fun id =>
    match s.indexes.get? id with
    | none => corruption s!"table {table} references unknown index {id}"
    | some ix => .ok (id, ix.shape)

def get (snap : Snapshot) (table : TableId) (id : RowId) : SqlResult (Option Row) := do
  let t ← s.table table
  .ok (((t.rows.get? id).bind (s.visible snap)).map Version.data)

/-- The rows of a table a snapshot sees, by increasing identifier. -/
def visibleRows (snap : Snapshot) (t : Table) : List (RowId × Row) :=
  t.rows.entries.filterMap fun (id, versions) =>
    (s.visible snap versions).map fun v => (id, v.data)

/-- All the rows of a table a snapshot sees, in the order of the clustered key if it has one. -/
def scan (snap : Snapshot) (table : TableId) : SqlResult (List (RowId × Row)) := do
  let t ← s.table table
  let visible := s.visibleRows snap t
  match t.clustered with
  | some order => order.sortRows visible
  | none => .ok visible

/-- The rows of the selected entries, those the snapshot does not see left out. -/
def collect (snap : Snapshot) (index : IndexId) (rows : OrderedMap RowId (List Version)) :
    List IndexEntry → SqlResult (List (RowId × Row))
  | [] => .ok []
  | e :: es =>
    match findVersion rows e.row e.version with
    | none =>
      let version := e.version
      let row := e.row
      corruption s!"index {index} references version {version} of row {row}, which does not exist"
    | some v => do
        let rest ← collect snap index rows es
        if snap.isVisible s.status v.xmin v.xmax then .ok ((e.row, v.data) :: rest)
        else .ok rest

/-- The rows a snapshot sees through an index, over a range. -/
def seek (snap : Snapshot) (index : IndexId) (range : KeyRange) (dir : Direction) :
    SqlResult (List (RowId × Row)) := do
  let ix ← s.index index
  match s.tables.get? ix.table with
  | none =>
    let table := ix.table
    corruption s!"index {index} belongs to unknown table {table}"
  | some t => do
      let (start, stop) ← ix.positions range
      let out ← s.collect snap index t.rows (slice ix.entries start stop)
      .ok (if dir = .backward then out.reverse else out)

def latestVersion (table : TableId) (id : RowId) : SqlResult (Option (TxnId × Row)) := do
  let t ← s.table table
  .ok ((t.latest id).map fun v => (v.xmax.getD v.xmin, v.data))

def committedTxnHighWater : ℕ := s.txns.keys.foldl max 0

end Inner

namespace MemoryStorage

/-! ### Helpers of the writes -/

def writingTxn (txn : TxnId) : Engine Unit := do
  let s ← get
  match s.txns.get? txn with
  | none => set { s with txns := s.txns.insert txn .inProgress }
  | some state =>
    if state.isFinished then EStateM.liftExcept (Inner.alreadyFinished txn state.status)

/-- Marks a transaction as finished and hands back its undo log. -/
def finishTxn (txn : TxnId) (status : TxnStatus) : Engine (List UndoEntry) := do
  let s ← get
  match s.txns.get? txn with
  | some state =>
    if state.isFinished then EStateM.liftExcept (Inner.alreadyFinished txn state.status)
    else
      set { s with txns := s.txns.insert txn (.finished status) }
      pure state.writes
  | none =>
    set { s with txns := s.txns.insert txn (.finished status) }
    pure []

/-- Removes the entry of one version from one index; an index dropped in the meantime is
ignored. -/
def removeEntry (id : IndexId) (item : RowId × Version) : Engine Unit := do
  let s ← get
  match s.indexes.get? id with
  | none => pure ()
  | some ix =>
    let ix ← EStateM.liftExcept (ix.removeVersion item.1 item.2)
    set { s with indexes := s.indexes.insert id ix }

def removeFromIndexes (ids : List IndexId) (removed : List (RowId × Version)) : Engine Unit :=
  ids.forM fun id => removed.forM (removeEntry id)

def removeEntries (table : TableId) (removed : List (RowId × Version)) : Engine Unit := do
  let s ← get
  match s.tables.get? table with
  | none => pure ()
  | some t => removeFromIndexes t.indexes.keys removed

/-- Applies one undo entry of `txn`; a table dropped since the write is ignored. -/
def undo (txn : TxnId) (entry : UndoEntry) : Engine Unit := do
  let s ← get
  match entry with
  | .insert table row =>
    match s.tables.get? table with
    | none => pure ()
    | some t =>
      let (removed, t) := t.removeRow row
      set { s with tables := s.tables.insert table t }
      match removed with
      | some versions => removeEntries table (versions.map fun v => (row, v))
      | none => pure ()
  | .update table row =>
    match s.tables.get? table with
    | none => pure ()
    | some t =>
      match t.undoUpdate txn row with
      | some (created, t) =>
        set { s with tables := s.tables.insert table t }
        removeEntries table [(row, created)]
      | none =>
        EStateM.liftExcept (corruption (s!"row {row} of table {table} does not end with the " ++
          s!"update of transaction {txn} being undone"))
  | .delete table row =>
    match s.tables.get? table with
    | none => pure ()
    | some t =>
      match t.undoDelete txn row with
      | some t => set { s with tables := s.tables.insert table t }
      | none =>
        EStateM.liftExcept (corruption (s!"row {row} of table {table} does not end with the " ++
          s!"delete of transaction {txn} being undone"))

/-- Undoes the writes of a log, the most recent first. -/
def undoAll (txn : TxnId) (writes : List UndoEntry) : Engine Unit :=
  writes.reverse.forM (undo txn)

def logWrite (txns : OrderedMap TxnId TxnState) (txn : TxnId) (state : TxnState)
    (entry : UndoEntry) : OrderedMap TxnId TxnState :=
  txns.insert txn { state with writes := state.writes ++ [entry] }

/-! ### Databases, tables and indexes -/

def createDatabase (name : String) : Engine DbId := do
  let s ← get
  let (id, next) ← EStateM.liftExcept (nextId 32 s.nextDbId "database")
  set { s with nextDbId := next, databases := s.databases.insert id ⟨name, .empty⟩ }
  pure id

def forgetTable (s : Inner) (table : TableId) : Inner :=
  match s.tables.get? table with
  | none => s
  | some dropped =>
    { s with
      tables := s.tables.erase table
      indexes := dropped.indexes.keys.foldl OrderedMap.erase s.indexes }

def dropDatabase (db : DbId) : Engine Unit := do
  let s ← get
  match s.databases.get? db with
  | none => EStateM.liftExcept (bug s!"unknown database {db}")
  | some database =>
    set (database.tables.keys.foldl forgetTable { s with databases := s.databases.erase db })

def createTable (db : DbId) (shape : TableShape) : Engine TableId := do
  let clustered ← EStateM.liftExcept (Inner.checkShape shape)
  let s ← get
  match s.databases.get? db with
  | none => EStateM.liftExcept (bug s!"unknown database {db}")
  | some database =>
    let (id, next) ← EStateM.liftExcept (nextId 32 s.nextTableId "table")
    set { s with
      nextTableId := next
      databases := s.databases.insert db { database with tables := database.tables.insert id () }
      tables := s.tables.insert id (Table.new db shape clustered) }
    pure id

def dropTable (table : TableId) : Engine Unit := do
  let s ← get
  match s.tables.get? table with
  | none => EStateM.liftExcept (bug s!"unknown table {table}")
  | some dropped =>
    let databases := s.databases.modify dropped.db fun database =>
      { database with tables := database.tables.erase table }
    set (forgetTable { s with databases } table)

/-- Creates an index on a table, with an entry for each version it already holds. -/
def createIndex (table : TableId) (shape : IndexShape) : Engine IndexId := do
  let s ← get
  let (id, next, ix) ← EStateM.liftExcept (s.prepareIndex table shape)
  match s.tables.get? table with
  | none => EStateM.liftExcept (corruption s!"table {table} vanished under the write lock")
  | some t =>
    set { s with
      tables := s.tables.insert table { t with indexes := t.indexes.insert id () }
      nextIndexId := next
      indexes := s.indexes.insert id ix }
    pure id

def dropIndex (index : IndexId) : Engine Unit := do
  let s ← get
  match s.indexes.get? index with
  | none => EStateM.liftExcept (bug s!"unknown index {index}")
  | some dropped =>
    set { s with
      indexes := s.indexes.erase index
      tables := s.tables.modify dropped.table fun t =>
        { t with indexes := t.indexes.erase index } }

/-! ### Rows -/

/-- The error of a table or transaction that disappears while the lock is held. -/
def vanished {α : Type} (table : TableId) (txn : TxnId) : Engine α :=
  EStateM.liftExcept (corruption
    s!"table {table} or transaction {txn} vanished under the write lock")

def insert (txn : TxnId) (table : TableId) (row : Row) : Engine RowId := do
  let s ← get
  EStateM.liftExcept (s.checkArity table row)
  EStateM.liftExcept (s.checkWritable txn)
  let t ← EStateM.liftExcept (s.table table)
  let id := t.peekRowId
  let planned ← EStateM.liftExcept (s.planEntries txn table row id t.peekSeq none)
  writingTxn txn
  let s ← get
  match s.tables.get? table, s.txns.get? txn with
  | some t, some state =>
    let (inserted, t) := t.insert txn row
    set { s with tables := s.tables.insert table t }
    if inserted ≠ id then
      EStateM.liftExcept (corruption
        s!"table {table} handed out row {inserted} instead of the announced {id}")
    else
      set { s with
        tables := s.tables.insert table t
        indexes := applyEntries s.indexes planned
        txns := logWrite s.txns txn state (.insert table id) }
      pure id
  | _, _ => vanished table txn

def update (txn : TxnId) (table : TableId) (id : RowId) (row : Row) : Engine Unit := do
  let s ← get
  EStateM.liftExcept (s.checkArity table row)
  EStateM.liftExcept (s.checkCurrent txn table id)
  EStateM.liftExcept (s.checkWritable txn)
  let t ← EStateM.liftExcept (s.table table)
  let planned ← EStateM.liftExcept (s.planEntries txn table row id t.peekSeq (some id))
  writingTxn txn
  let s ← get
  match s.tables.get? table, s.txns.get? txn with
  | some t, some state =>
    let (done, t) := t.supersede txn id (some row)
    set { s with tables := s.tables.insert table t }
    if !done then
      EStateM.liftExcept (corruption s!"row {id} of table {table} vanished under the write lock")
    else
      set { s with
        tables := s.tables.insert table t
        indexes := applyEntries s.indexes planned
        txns := logWrite s.txns txn state (.update table id) }
  | _, _ => vanished table txn

def delete (txn : TxnId) (table : TableId) (id : RowId) : Engine Unit := do
  let s ← get
  EStateM.liftExcept (s.checkCurrent txn table id)
  writingTxn txn
  let s ← get
  match s.tables.get? table, s.txns.get? txn with
  | some t, some state =>
    let (done, t) := t.supersede txn id none
    set { s with tables := s.tables.insert table t }
    if !done then
      EStateM.liftExcept (corruption s!"row {id} of table {table} vanished under the write lock")
    else
      set { s with
        tables := s.tables.insert table t
        txns := logWrite s.txns txn state (.delete table id) }
  | _, _ => vanished table txn

/-! ### Transactions -/

def commit (txn : TxnId) : Engine Unit := do
  let _ ← finishTxn txn .committed

/-- Rolls back: the undo log is applied, the most recent write first. -/
def rollback (txn : TxnId) : Engine Unit := do
  let writes ← finishTxn txn .aborted
  undoAll txn writes

def savepoint (txn : TxnId) : Engine SavepointId := do
  writingTxn txn
  let s ← get
  let (id, next) ← EStateM.liftExcept (nextId 64 s.nextSavepointId "savepoint")
  set { s with nextSavepointId := next }
  match s.txns.get? txn with
  | none =>
    EStateM.liftExcept (corruption s!"transaction {txn} vanished under the write lock")
  | some state =>
    let state := { state with savepoints := state.savepoints ++ [(id, state.writes.length)] }
    set { s with nextSavepointId := next, txns := s.txns.insert txn state }
    pure id

/-- Undoes the writes made since a savepoint, which stays valid; the later ones do not. -/
def rollbackTo (txn : TxnId) (sp : SavepointId) : Engine Unit := do
  let s ← get
  match s.txns.get? txn with
  | none => EStateM.liftExcept (bug s!"unknown transaction {txn} for savepoint {sp}")
  | some state =>
    if state.isFinished then EStateM.liftExcept (Inner.alreadyFinished txn state.status)
    else
      match state.savepoints.findIdx? fun p => p.1 == sp with
      | none =>
        EStateM.liftExcept (bug
          s!"savepoint {sp} is unknown, invalidated or not owned by transaction {txn}")
      | some pos =>
        let mark := (state.savepoints[pos]?.map Prod.snd).getD 0
        if mark > state.writes.length then
          EStateM.liftExcept (corruption
            s!"savepoint {sp} of transaction {txn} points past its undo log")
        else
          let kept := { state with
            savepoints := state.savepoints.take (pos + 1)
            writes := state.writes.take mark }
          set { s with txns := s.txns.insert txn kept }
          undoAll txn (state.writes.drop mark)

/-- Nothing to flush: memory is the only medium. -/
def checkpoint : Engine Unit := pure ()

/-- The passes of a vacuum over one table, with the index entries of what they discard. -/
def vacuumTable (horizon : TxnId) (status : TxnId → TxnStatus) (table : TableId) :
    Engine Unit := do
  let s ← get
  match s.tables.get? table with
  | none => pure ()
  | some t =>
    let (removed, t) := t.vacuum horizon status
    set { s with tables := s.tables.insert table t }
    removeFromIndexes t.indexes.keys removed

/-- Discards the versions no snapshot above the horizon can see, then forgets transactions. -/
def vacuum (horizon : TxnId) : Engine Unit := do
  let s ← get
  s.tables.keys.forM (vacuumTable horizon s.status)
  modify fun s =>
    { s with txns := s.txns.filter fun t state => !(state.isFinished && decide (t < horizon)) }

end MemoryStorage

end VaubanDB
