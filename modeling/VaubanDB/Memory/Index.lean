import VaubanDB.Memory.Table

/-!
An index of the in-memory engine (`vauban-storage/src/memory/index.rs`): a list of entries,
one per row version, kept sorted by key, then row, then serial number, and searched by binary
search.

The comparator may refuse two keys, so the list is sorted along the pairs it can compare.
That is enough: a search that ends has compared both neighbours of the position it answers.
-/

namespace VaubanDB

structure IndexEntry where
  key : List Value
  row : RowId
  version : ℕ
  deriving DecidableEq, Repr

structure Index where
  table : TableId
  shape : IndexShape
  order : KeyOrder
  entries : List IndexEntry
  deriving DecidableEq, Repr

/-- `version` is live for the uniqueness test of `txn`: not aborted, and current or deleted by
another transaction in progress. -/
def isLive (version : Version) (txn : Option TxnId) (status : TxnId → TxnStatus) : Bool :=
  if status version.xmin = .aborted then false
  else
    match version.xmax with
    | none => true
    | some x => some x != txn && status x == .inProgress

def findVersion (rows : OrderedMap RowId (List Version)) (row : RowId) (seq : ℕ) :
    Option Version :=
  (rows.get? row).bind fun versions => versions.find? fun v => v.seq == seq

/-- `items.get(start..end).unwrap_or_default()`. -/
def slice {α : Type} (items : List α) (start stop : ℕ) : List α :=
  if start ≤ stop ∧ stop ≤ items.length then (items.drop start).take (stop - start) else []

namespace Index

def new (table : TableId) (shape : IndexShape) (order : KeyOrder) : Index :=
  ⟨table, shape, order, []⟩

variable (ix : Index)

def lowerBound (pre : List Value) : SqlResult ℕ :=
  KeyOrder.partitionPoint ix.entries fun e =>
    (ix.order.comparePrefix e.key pre).map fun o => o == .lt

def upperBound (pre : List Value) : SqlResult ℕ :=
  KeyOrder.partitionPoint ix.entries fun e =>
    (ix.order.comparePrefix e.key pre).map fun o => o != .gt

def sortsBefore (key : List Value) (row : RowId) (version : ℕ) (e : IndexEntry) :
    SqlResult Bool :=
  (ix.order.comparePrefix e.key key).map fun
    | .lt => true
    | .eq => decide (e.row < row ∨ (e.row = row ∧ e.version < version))
    | .gt => false

def positionFor (key : List Value) (row : RowId) (version : ℕ) : SqlResult ℕ :=
  KeyOrder.partitionPoint ix.entries (ix.sortsBefore key row version)

def isEntryOf (key : List Value) (row : RowId) (version : ℕ) (pos : ℕ) : SqlResult Bool :=
  match ix.entries[pos]? with
  | some e =>
    if e.row = row ∧ e.version = version then
      (ix.order.comparePrefix e.key key).map fun o => o == .eq
    else .ok false
  | none => .ok false

def removeVersion (row : RowId) (version : Version) : SqlResult Index := do
  let key ← ix.order.extract version.data
  let pos ← ix.positionFor key row version.seq
  let found ← ix.isEntryOf key row version.seq pos
  .ok (if found then { ix with entries := ix.entries.eraseIdx pos } else ix)

def startOf : Bound → SqlResult ℕ
  | .unbounded => .ok 0
  | .included p => ix.lowerBound p
  | .excluded p => ix.upperBound p

def stopOf : Bound → SqlResult ℕ
  | .unbounded => .ok ix.entries.length
  | .included p => ix.upperBound p
  | .excluded p => ix.lowerBound p

def checkBound (b : Bound) : SqlResult Unit :=
  match b.key? with
  | some p => ix.order.checkPrefix p
  | none => .ok ()

/-- The positions of the entries selected by a range, after the checks on its keys. -/
def positions (range : KeyRange) : SqlResult (ℕ × ℕ) :=
  match range with
  | .full => .ok (0, ix.entries.length)
  | .point k => do
      ix.order.checkPrefix k
      let start ← ix.lowerBound k
      let stop ← ix.upperBound k
      .ok (start, max stop start)
  | .between lo hi => do
      ix.checkBound lo
      ix.checkBound hi
      let start ← ix.startOf lo
      let stop ← ix.stopOf hi
      .ok (start, max stop start)

def versionOf (rows : OrderedMap RowId (List Version)) (e : IndexEntry) : SqlResult Version :=
  match findVersion rows e.row e.version with
  | some v => .ok v
  | none =>
    let table := ix.table
    let version := e.version
    let row := e.row
    corruption (s!"index on table {table} references version {version} of row {row}, " ++
      "which does not exist")

/-- A live version among the entries, those of `skipRow` left out. -/
def anyLive (rows : OrderedMap RowId (List Version)) (txn : Option TxnId)
    (status : TxnId → TxnStatus) (skipRow : Option RowId) : List IndexEntry → SqlResult Bool
  | [] => .ok false
  | e :: es =>
    if some e.row = skipRow then anyLive rows txn status skipRow es
    else do
      let v ← ix.versionOf rows e
      if isLive v txn status then .ok true else anyLive rows txn status skipRow es

/-- A live version other than those of `skipRow` already holds `key`. -/
def hasLiveDuplicate (key : List Value) (rows : OrderedMap RowId (List Version))
    (txn : Option TxnId) (status : TxnId → TxnStatus) (skipRow : Option RowId) :
    SqlResult Bool := do
  let start ← ix.lowerBound key
  let stop ← ix.upperBound key
  ix.anyLive rows txn status skipRow (slice ix.entries start stop)

/-- Live versions of two rows in a group; `liveRow` is the row of the live version met last. -/
def groupDuplicate (rows : OrderedMap RowId (List Version)) (status : TxnId → TxnStatus) :
    Option RowId → List IndexEntry → SqlResult Bool
  | _, [] => .ok false
  | liveRow, e :: es => do
      let v ← ix.versionOf rows e
      if !isLive v none status then groupDuplicate rows status liveRow es
      else
        match liveRow with
        | some row =>
          if row ≠ e.row then .ok true else groupDuplicate rows status (some e.row) es
        | none => groupDuplicate rows status (some e.row) es

/-- The loop of `firstDuplicateKey` from the group that starts at `start`. -/
def duplicateFrom (rows : OrderedMap RowId (List Version)) (status : TxnId → TxnStatus) :
    ℕ → ℕ → SqlResult (Option (List Value))
  | 0, _ => .ok none
  | fuel + 1, start =>
    match ix.entries[start]? with
    | none => .ok none
    | some first => do
        let stop ← ix.upperBound first.key
        let stop := max stop (start + 1)
        let found ← ix.groupDuplicate rows status none (slice ix.entries start stop)
        if found then .ok (some first.key) else duplicateFrom rows status fuel stop

def firstDuplicateKey (rows : OrderedMap RowId (List Version)) (status : TxnId → TxnStatus) :
    SqlResult (Option (List Value)) :=
  ix.duplicateFrom rows status ix.entries.length 0

end Index

end VaubanDB
