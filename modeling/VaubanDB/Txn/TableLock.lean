import VaubanDB.Library.Interference
import VaubanDB.Txn.Isolation

/-!
Table locks of a statement and lock escalation (`vauban-txn/src/table_lock.rs`).

`tableLock` takes the lock that `TABLOCK` or `TABLOCKX` asks for and marks it as one that ends with
the statement; `endTableLock` gives the marked table back.  `maybeEscalate` gives many row locks of
a table back and takes one lock of the table instead.  The calls are programs over the operations of
the lock manager and of the list of marks.
-/

namespace VaubanDB

/-- Row locks on one table, at or above this number, become a table lock. -/
def escalationThreshold : ℕ := 6235

/-- What granularity one instruction uses on one table. -/
inductive TableLockDecision where
  | rowLevel
  | tableShared
  | tableExclusive
  deriving DecidableEq

def releasesTableLockAtEndOfStatement : IsolationLevel → Bool
  | .readCommitted | .readUncommitted => true
  | _ => false

/-! ### The calls -/

/-- What the calls ask of the lock manager and of the list of marked table locks. -/
inductive TableLockOp where
  | lock (o : LockOp)
  | recordStatementTableLock (table : TableId)
  | takeStatementTableLock (table : TableId)

@[reducible] def TableLockOp.Answer : TableLockOp → Type
  | .lock o => o.Answer
  | .recordStatementTableLock _ => Unit
  | .takeStatementTableLock _ => Bool

abbrev TableLockProgram := ExceptT LockError (Program TableLockOp TableLockOp.Answer)

namespace TableLockProgram

variable {α : Type}

def op (o : TableLockOp) : TableLockProgram o.Answer := liftM (Program.perform o)

/-- A call that asks the lock manager only. -/
def locking (p : LockProgram α) : TableLockProgram α :=
  (Program.hoist TableLockOp.lock (fun _ a => a) p.run :
    Program TableLockOp TableLockOp.Answer (Except LockError α))

/-- The wait of a table lock when the hints carry no `NOWAIT`. -/
def sessionTimeout : LockTimeout := .infinite

def acquireTableLock (table : TableId) (mode : LockMode) (hints : LockIntent) :
    TableLockProgram Unit :=
  locking (LockProgram.take (.table table) mode (if hints.nowait then .noWait else sessionTimeout))

def tableLock (txn : TxnHandle) (table : TableId) (hints : LockIntent) :
    TableLockProgram TableLockDecision := do
  if hints.tablockx then
    acquireTableLock table .X hints
    if releasesTableLockAtEndOfStatement txn.isolation then
      op (.recordStatementTableLock table)
    return .tableExclusive
  if hints.tablock then
    acquireTableLock table .S hints
    if releasesTableLockAtEndOfStatement txn.isolation then
      op (.recordStatementTableLock table)
    return .tableShared
  return .rowLevel

/-- Gives back a table lock that was to end with the statement. -/
def endTableLock (txn : TxnHandle) (table : TableId) : TableLockProgram Unit := do
  if ← op (.takeStatementTableLock table) then
    locking (LockProgram.unlock txn (.table table))

/-- A statement: its table lock is taken, and ended when it is done. -/
def tableStatement (txn : TxnHandle) (table : TableId) (hints : LockIntent) :
    TableLockProgram TableLockDecision := do
  let decision ← tableLock txn table hints
  endTableLock txn table
  return decision

def tableDataMode (table : TableId) : TableLockProgram (Option LockMode) :=
  locking (LockProgram.dataModeHeld (.table table))

/-- The rows of the table among the locks of a transaction, with their data modes. -/
def rowsOnTable (table : TableId) (held : List (LockResource × LockMode)) :
    List (RowId × LockMode) :=
  held.filterMap fun p => match p with
    | (.row t row, mode) => if t = table ∧ mode.isData then some (row, mode) else none
    | (.table _, _) => none

def rowLocksOnTable (table : TableId) : TableLockProgram (List (RowId × LockMode)) := do
  let held ← op (.lock .held)
  return rowsOnTable table held

/-- The mode of the table that stands for these rows. -/
def escalatedMode (rows : List (RowId × LockMode)) : LockMode :=
  if rows.any fun p => p.2 = .X || p.2 = .U then .X else .S

/-- Gives many row locks of a table back and takes one table lock instead. -/
def maybeEscalate (txn : TxnHandle) (table : TableId) :
    TableLockProgram (Option TableLockDecision) := do
  if (← tableDataMode table).isSome then
    return none
  let rows ← rowLocksOnTable table
  if rows.length < escalationThreshold then
    return none
  let tableMode := escalatedMode rows
  rows.forM fun p => locking (LockProgram.unlock txn (.row table p.1))
  acquireTableLock table tableMode {}
  return some (if tableMode = .X then .tableExclusive else .tableShared)

end TableLockProgram

/-! ### What the operations do -/

/-- The lock manager, the row reads of the thread, and the table locks of its statement. -/
structure TableLocks where
  world : LockWorld
  rowReads : List (TxnId × TableId × RowId)
  marks : List (TxnId × TableId)
  deriving DecidableEq

namespace TableLocks

variable (s : TableLocks) (txn : TxnId)

def requested (world : LockWorld) (call : LockCall) (timeout : LockTimeout) (givesUp : Bool)
    (refusal : LockOutcome) : Option (TableLocks × (LockOutcome ⊕ LockCall × LockTimeout)) :=
  (s.world.requested world timeout givesUp refusal).map fun o =>
    ({ s with world }, o.elim (.inr (call, timeout)) .inl)

/-- The thread makes an operation of the lock manager. -/
def startLock (choice : LockChoice) :
    (o : LockOp) → Option (TableLocks × (o.Answer ⊕ LockCall × LockTimeout))
  | .tryAcquire r mode timeout =>
    let givesUp := timeout = .noWait || choice.givesUp
    s.requested (s.world.request txn r mode givesUp) ⟨s.world.table.nextTicket, txn, r, mode⟩
      timeout givesUp choice.refusal
  | o => (o.perform txn choice.options s.world s.rowReads).map fun (world, rowReads, a) =>
    ({ s with world, rowReads }, .inl a)

def start (choice : LockChoice) :
    (o : TableLockOp) → Option (TableLocks × (o.Answer ⊕ LockCall × LockTimeout))
  | .lock o => s.startLock txn choice o
  | .recordStatementTableLock table =>
    some ({ s with marks := s.marks ++ [(txn, table)] }, .inl ())
  | .takeStatementTableLock table =>
    some ({ s with marks := s.marks.erase (txn, table) }, .inl (s.marks.contains (txn, table)))

def again (ticket : LockCall × LockTimeout) (choice : LockChoice) :
    (o : TableLockOp) → Option (TableLocks × (o.Answer ⊕ LockCall × LockTimeout))
  | .lock (.tryAcquire ..) =>
    s.requested (s.world.wake ticket.1 choice.givesUp) ticket.1 ticket.2 choice.givesUp
      choice.refusal
  | _ => none

end TableLocks

def tableLockOps (txn : TxnId) :
    Operations TableLocks TableLockOp TableLockOp.Answer LockChoice where
  Ticket := LockCall × LockTimeout
  start o choice s := s.start txn choice o
  again o ticket choice s := s.again ticket choice o

/-- What the others do: they use the lock manager, and mark and end table locks of their own. -/
inductive OtherLocking where
  | act (a : LockAction)
  | recordMark (txn : TxnId) (table : TableId)
  | takeMark (txn : TxnId) (table : TableId)
  deriving DecidableEq

def OtherLocking.txn : OtherLocking → TxnId
  | .act a => a.txn
  | .recordMark txn _ | .takeMark txn _ => txn

def TableLocks.others (s : TableLocks) : OtherLocking → Option TableLocks
  | .act a => (s.world.exec a).map fun world => { s with world }
  | .recordMark txn table => some { s with marks := s.marks ++ [(txn, table)] }
  | .takeMark txn table => some { s with marks := s.marks.erase (txn, table) }

/-- A transaction runs a program while the others go on. -/
def tableLocking {α : Type} (txn : TxnHandle) (s : TableLocks) (p : TableLockProgram α) :=
  (tableLockOps txn.id).machine TableLocks.others s p.run

/-- Only its own thread acts for the transaction. -/
def Foreign (txn : TxnHandle) (_ : TableLocks) (e : OtherLocking) : Prop := e.txn ≠ txn.id

instance (txn : TxnHandle) (s : TableLocks) (e : OtherLocking) : Decidable (Foreign txn s e) :=
  inferInstanceAs (Decidable (_ ≠ _))

end VaubanDB
