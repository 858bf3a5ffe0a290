import VaubanDB.Library.OrderedMap
import VaubanDB.Memory.KeyOrder

/-!
A table of the in-memory engine and its row versions (`vauban-storage/src/memory/table.rs`),
and what the engine remembers of a transaction (`memory/txn_log.rs`).

A logical row is the chain of its versions, oldest first.  A write acts on the last version:
an update stamps it and chains a new one, a delete stamps it, and undoing either acts on the
end of the chain again; only `Table.vacuum` takes versions out of the middle.
-/

namespace VaubanDB

/-- One version of a logical row: its creator, its deleter, its content and its serial number. -/
structure Version where
  xmin : TxnId
  xmax : Option TxnId
  data : Row
  seq : ℕ
  deriving DecidableEq, Repr

/-- A table: its owning database, its shape, its indexes and every version of every row. -/
structure Table where
  db : DbId
  shape : TableShape
  clustered : Option KeyOrder
  indexes : OrderedMap IndexId Unit
  rows : OrderedMap RowId (List Version)
  nextRowId : ℕ
  nextSeq : ℕ
  deriving DecidableEq

namespace Table

def new (db : DbId) (shape : TableShape) (clustered : Option KeyOrder) : Table :=
  ⟨db, shape, clustered, .empty, .empty, 1, 1⟩

variable (t : Table)

def arity : ℕ := t.shape.columns.length

/-- The identifier the next `insert` will hand out. -/
def peekRowId : RowId := t.nextRowId

/-- The serial number the next version will receive. -/
def peekSeq : ℕ := t.nextSeq

def newVersion (txn : TxnId) (data : Row) : Version × Table :=
  (⟨txn, none, data, t.nextSeq⟩, { t with nextSeq := t.nextSeq + 1 })

def insert (txn : TxnId) (data : Row) : RowId × Table :=
  let id := t.nextRowId
  let t := { t with nextRowId := t.nextRowId + 1 }
  let (version, t) := t.newVersion txn data
  (id, { t with rows := t.rows.insert id [version] })

/-- Stamps the current version of row `id` and chains a new one; `false` when there is none. -/
def supersede (txn : TxnId) (id : RowId) (data : Option Row) : Bool × Table :=
  let (newVersion, t) : Option Version × Table :=
    match data with
    | some d => let (v, t) := t.newVersion txn d; (some v, t)
    | none => (none, t)
  match t.rows.get? id with
  | none => (false, t)
  | some versions =>
    match versions.getLast? with
    | none => (false, t)
    | some current =>
      let stamped := versions.dropLast ++ [{ current with xmax := some txn }]
      (true, { t with rows := t.rows.insert id (stamped ++ newVersion.toList) })

/-- Removes the logical row `id`: the undo of `insert`. -/
def removeRow (id : RowId) : Option (List Version) × Table :=
  (t.rows.get? id, { t with rows := t.rows.erase id })

def latest (id : RowId) : Option Version := (t.rows.get? id).bind List.getLast?

/-- Undoes an update by `txn` on row `id`; `none` when the chain does not end that way. -/
def undoUpdate (txn : TxnId) (id : RowId) : Option (Version × Table) :=
  match t.rows.get? id with
  | none => none
  | some versions =>
    match versions.reverse with
    | created :: replaced :: older =>
      if replaced.xmax = some txn ∧ created.xmin = txn ∧ created.xmax = none then
        let chain := older.reverse ++ [{ replaced with xmax := none }]
        some (created, { t with rows := t.rows.insert id chain })
      else none
    | _ => none

/-- Undoes a delete by `txn` on row `id`; `none` when the last version was not deleted by
`txn`. -/
def undoDelete (txn : TxnId) (id : RowId) : Option Table :=
  match t.rows.get? id with
  | none => none
  | some versions =>
    match versions.getLast? with
    | some deleted =>
      if deleted.xmax = some txn then
        let chain := versions.dropLast ++ [{ deleted with xmax := none }]
        some { t with rows := t.rows.insert id chain }
      else none
    | none => none

/-- A version deleted or replaced by a transaction committed below the horizon. -/
def expired (horizon : TxnId) (status : TxnId → TxnStatus) (v : Version) : Bool :=
  v.xmax.any fun x => decide (x < horizon) && status x == .committed

/-- A version created by an aborted transaction. -/
def orphaned (status : TxnId → TxnStatus) (v : Version) : Bool := status v.xmin == .aborted

/-- One pass over the rows: the versions that satisfy `dead`, and the rows without them. -/
def sweep (rows : OrderedMap RowId (List Version)) (dead : Version → Bool) :
    List (RowId × Version) × OrderedMap RowId (List Version) :=
  (rows.entries.flatMap fun (id, versions) => (versions.filter dead).map fun v => (id, v),
    rows.mapVals fun _ versions => versions.filter fun v => !dead v)

/-- The passes of a vacuum: the expired versions, the orphaned ones, the rows left empty. -/
def vacuum (horizon : TxnId) (status : TxnId → TxnStatus) : List (RowId × Version) × Table :=
  let (expiredVersions, rows) := sweep t.rows (expired horizon status)
  let (orphanedVersions, rows) := sweep rows (orphaned status)
  (expiredVersions ++ orphanedVersions,
    { t with rows := rows.filter fun _ versions => !versions.isEmpty })

end Table

/-! ### What the engine remembers of a transaction -/

/-- One write logged for a transaction, to be undone in reverse order. -/
inductive UndoEntry where
  | insert (table : TableId) (row : RowId)
  | update (table : TableId) (row : RowId)
  | delete (table : TableId) (row : RowId)
  deriving DecidableEq, Repr

def UndoEntry.table : UndoEntry → TableId
  | .insert table _ | .update table _ | .delete table _ => table

def UndoEntry.row : UndoEntry → RowId
  | .insert _ row | .update _ row | .delete _ row => row

/-- What the storage knows about one transaction. -/
structure TxnState where
  status : TxnStatus
  writes : List UndoEntry
  savepoints : List (SavepointId × ℕ)
  deriving DecidableEq, Repr

namespace TxnState

def inProgress : TxnState := ⟨.inProgress, [], []⟩

/-- A transaction that finished without a write. -/
def finished (status : TxnStatus) : TxnState := ⟨status, [], []⟩

def isFinished (s : TxnState) : Bool := s.status != .inProgress

end TxnState

end VaubanDB
