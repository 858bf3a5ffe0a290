import VaubanDB.Types.Value

/-!
The vocabulary of the storage layer (`vauban-storage/src/ids.rs`, `snapshot.rs`, `row.rs`,
`shape.rs`, `key_range.rs`): identifiers, the fate of a transaction, what a snapshot sees,
the shapes of tables and indexes, and the ranges of a seek.

`Snapshot.isVisible` is the visibility rule both engines share: a version is seen when its
creator is settled for the snapshot and its deleter, if any, is not.
-/

namespace VaubanDB

/-! ### Identifiers -/

abbrev DbId := ℕ

abbrev TableId := ℕ

abbrev IndexId := ℕ

abbrev RowId := ℕ

abbrev TxnId := ℕ

abbrev SavepointId := ℕ

abbrev Row := List Value

/-! ### Transactions and snapshots -/

/-- The fate of a transaction, as known by the storage. -/
inductive TxnStatus where
  | inProgress
  | committed
  | aborted
  deriving DecidableEq, Repr

instance : ToString TxnStatus where
  toString
    | .inProgress => "InProgress"
    | .committed => "Committed"
    | .aborted => "Aborted"

/-- What a reading transaction may see. -/
structure Snapshot where
  /-- Smallest transaction still active when the snapshot was taken. -/
  xmin : TxnId
  /-- Next transaction to be assigned when the snapshot was taken. -/
  xmax : TxnId
  /-- Transactions in progress when the snapshot was taken. -/
  active : List TxnId
  /-- The reading transaction. -/
  own : TxnId
  deriving DecidableEq, Repr

namespace Snapshot

variable (snap : Snapshot) (status : TxnId → TxnStatus)

/-- The effects of `t` count as done for this snapshot. -/
def isSettled (t : TxnId) : Bool :=
  t == snap.own ||
    (decide (t < snap.xmax) && !snap.active.contains t && status t == .committed)

def isVisible (xmin : TxnId) (xmax : Option TxnId) : Bool :=
  snap.isSettled status xmin && !(xmax.any (snap.isSettled status))

variable {snap status}

lemma isSettled_iff {t : TxnId} : snap.isSettled status t = true ↔
    t = snap.own ∨ (t < snap.xmax ∧ t ∉ snap.active ∧ status t = .committed) := by
  simp [isSettled, and_assoc]

lemma isVisible_iff {xmin : TxnId} {xmax : Option TxnId} : snap.isVisible status xmin xmax = true ↔
      snap.isSettled status xmin = true ∧ ∀ x, xmax = some x → snap.isSettled status x = false := by
  cases xmax <;> simp [isVisible]

end Snapshot

/-! ### Shapes -/

structure KeyColumn where
  column : ℕ
  descending : Bool
  deriving DecidableEq, Repr

/-- The shape of a table: its columns and its clustered key, if it has one. -/
structure TableShape where
  columns : List TypeInfo
  clusteredKey : Option (List KeyColumn)
  deriving DecidableEq, Repr

structure IndexShape where
  columns : List KeyColumn
  unique : Bool
  included : List ℕ
  deriving DecidableEq, Repr

/-! ### Ranges -/

inductive Bound where
  | included (p : List Value)
  | excluded (p : List Value)
  | unbounded
  deriving DecidableEq, Repr

def Bound.key? : Bound → Option (List Value)
  | .included p | .excluded p => some p
  | .unbounded => none

/-- The keys a seek selects; a bound may be a prefix of a key. -/
inductive KeyRange where
  | point (k : List Value)
  | between (lo hi : Bound)
  | full
  deriving DecidableEq, Repr

inductive Direction where
  | forward
  | backward
  deriving DecidableEq, Repr

end VaubanDB
