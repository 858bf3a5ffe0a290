import VaubanDB.Library.Program
import VaubanDB.Txn.LockView
import VaubanDB.Txn.Manager

/-!
The policy of the row locks (`vauban-txn/src/isolation.rs`) and of the schema locks
(`vauban-txn/src/schema_lock.rs`).

A call of the policy is a program over the operations of the lock manager and of the set of row
reads the thread keeps.  `LockSession` is one transaction that makes such calls, one after the
other, while the other transactions use the lock manager as they like.
-/

namespace VaubanDB

/-! ### Levels, hints and answers -/

inductive LockTimeout where
  | infinite
  | millis (ms : ℕ)
  | noWait
  deriving DecidableEq

inductive LockOutcome where
  | granted
  | timedOut
  | deadlock (victim : TxnId)
  | cancelled
  deriving DecidableEq

/-- What a transaction is known by. -/
structure TxnHandle where
  id : TxnId
  isolation : IsolationLevel
  deriving DecidableEq

/-- What the plan asked for on a table. -/
structure LockIntent where
  level : Option IsolationLevel := none
  holdlock : Bool := false
  updlock : Bool := false
  xlock : Bool := false
  readpast : Bool := false
  nowait : Bool := false
  tablock : Bool := false
  tablockx : Bool := false
  timeout : LockTimeout := .infinite
  deriving DecidableEq

/-- What the caller may do with the row it asked to read. -/
inductive ReadAccess where
  | locked
  | dirty
  | skip
  | versioned
  deriving DecidableEq

/-- What `holdSchemaStability` did on a table. -/
structure SchemaHold where
  taken : Bool
  waited : Bool
  deriving DecidableEq

inductive LockError where
  /-- 1222, state 51. -/
  | lockRequestTimeoutOnRow
  /-- 1222, state 56. -/
  | lockRequestTimeoutOnObject
  /-- 1205. -/
  | deadlockVictim (processId : ℕ) (resource : String)
  | bug (message : String)
  deriving DecidableEq

def LockResource.debug : LockResource → String
  | .row t r => s!"Row(TableId({t}), RowId({r}))"
  | .table t => s!"Table(TableId({t}))"

def processId (victim : TxnId) : ℕ := min victim (2 ^ 63 - 1)

def toError : LockOutcome → LockResource → LockError
  | .granted, _ => .bug "deadlock::to_error: the lock was granted"
  | .timedOut, .row .. => .lockRequestTimeoutOnRow
  | .timedOut, .table _ => .lockRequestTimeoutOnObject
  | .deadlock victim, _ => .deadlockVictim (processId victim) "lock"
  | .cancelled, _ => .bug "deadlock::to_error: a cancelled wait has no client error"

/-- The mode a read takes on the row, none when it takes no lock. -/
def readMode (level : IsolationLevel) (hints : LockIntent) : Option LockMode :=
  if hints.xlock then some .X
  else if hints.updlock then some .U
  else match level with
    | .readUncommitted => none
    | _ => some .S

/-- The shared lock of a row read at this level is given back at the end of the row. -/
def releasesAtEndOfRow : IsolationLevel → Bool
  | .repeatableRead | .serializable => false
  | .readUncommitted | .readCommitted => true
  | .snapshot => true

/-- The mode the table takes before `mode` is taken on one of its rows. -/
def intentOf : LockMode → LockMode
  | .S => .IS
  | _ => .IX

def lockWaitOf (hints : LockIntent) : LockTimeout := if hints.nowait then .noWait else hints.timeout

def effectiveLevel (txn : TxnHandle) (hints : LockIntent) : IsolationLevel :=
  (hints.level.or (if hints.holdlock then some .serializable else none)).getD txn.isolation

/-! ### The operations -/

/-- What a call asks of the lock manager, of the options and of the set of row reads. -/
inductive LockOp where
  | tryAcquire (r : LockResource) (mode : LockMode) (timeout : LockTimeout)
  | held
  | unlock (r : LockResource)
  | readVersioning (level : IsolationLevel)
  | recordRowRead (table : TableId) (row : RowId)
  | takeRowRead (table : TableId) (row : RowId)

@[reducible] def LockOp.Answer : LockOp → Type
  | .tryAcquire .. => LockOutcome
  | .held => List (LockResource × LockMode)
  | .unlock _ => Bool
  | .readVersioning _ => VersioningMode
  | .recordRowRead .. => Unit
  | .takeRowRead .. => Bool

abbrev LockProgram := ExceptT LockError (Program LockOp LockOp.Answer)

namespace LockProgram

def op (o : LockOp) : LockProgram o.Answer := liftM (Program.perform o)

/-- Takes a lock; a refusal is an error. -/
def take (r : LockResource) (mode : LockMode) (timeout : LockTimeout) : LockProgram Unit := do
  match ← op (.tryAcquire r mode timeout) with
  | .granted => pure ()
  | other => throw (toError other r)

def unlock (txn : TxnHandle) (r : LockResource) : LockProgram Unit := do
  if ← op (.unlock r) then pure ()
  else throw (.bug
    s!"LockManager::unlock: transaction {txn.id} holds no lock on {r.debug}")

def dataModeHeld (r : LockResource) : LockProgram (Option LockMode) := do
  let held ← op .held
  pure ((held.find? fun p => p.1 = r ∧ p.2.isData).map Prod.snd)

/-! ### Row locks -/

/-- The row of a read, noted when it ends with the row; `heldBefore` is what was held of it. -/
def takeRow (level : IsolationLevel) (mode : LockMode) (table : TableId) (row : RowId)
    (hints : LockIntent) (heldBefore : Option LockMode) : LockProgram ReadAccess := do
  let rowTimeout := if hints.readpast then .noWait else lockWaitOf hints
  match ← Program.attempt (take (.row table row) mode rowTimeout) with
  | .error refused => if hints.readpast then pure .skip else throw refused
  | .ok () =>
    if mode ≠ .S ∨ releasesAtEndOfRow level = false then
      let _ ← op (.takeRowRead table row)
    else if heldBefore.isNone then
      op (.recordRowRead table row)
    pure .locked

/-- The locks of a read: the intent of the table, then the row. -/
def takeRead (level : IsolationLevel) (mode : LockMode) (table : TableId) (row : RowId)
    (hints : LockIntent) : LockProgram ReadAccess := do
  take (.table table) (intentOf mode) (lockWaitOf hints)
  let heldBefore ← dataModeHeld (.row table row)
  takeRow level mode table row hints heldBefore

/-- Takes the locks the level and the hints ask for before a row is read. -/
def readLock (txn : TxnHandle) (table : TableId) (row : RowId) (hints : LockIntent) :
    LockProgram ReadAccess := do
  let level := effectiveLevel txn hints
  match readMode level hints with
  | none => pure .dirty
  | some mode =>
    if mode = .S then
      if (← op (.readVersioning level)) ≠ .locking then pure .versioned
      else takeRead level mode table row hints
    else takeRead level mode table row hints

/-- Gives back the shared lock of a row read that was to end with the row. -/
def endRowRead (txn : TxnHandle) (table : TableId) (row : RowId) : LockProgram Unit := do
  if ← op (.takeRowRead table row) then
    if (← dataModeHeld (.row table row)) = some .S then
      unlock txn (.row table row)

/-- Takes the exclusive lock a transaction needs to change a row. -/
def writeLock (table : TableId) (row : RowId) (hints : LockIntent) : LockProgram Unit := do
  let lockWait := lockWaitOf hints
  take (.table table) .IX lockWait
  take (.row table row) .X lockWait
  let _ ← op (.takeRowRead table row)

def tablesOf (held : List (LockResource × LockMode)) : List TableId :=
  (held.filterMap fun p => match p.1 with
    | .table table => some table
    | .row .. => none).destutter (· ≠ ·)

def modeOf (held : List (LockResource × LockMode)) (r : LockResource) (data : Bool) :
    Option LockMode :=
  ((held.filter fun p => p.1 = r ∧ p.2.isData = data).getLast?).map Prod.snd

/-- The locks a transaction holds on a table end with the statement. -/
def goes (txn : TxnHandle) (heldForTheStatement : List TableId)
    (held : List (LockResource × LockMode)) (table : TableId) : Bool :=
  let rowsHeld := held.any fun p => match p.1 with
    | .row t _ => t = table
    | .table _ => false
  let dataGoes := match modeOf held (.table table) true with
    | none => true
    | some .IS => releasesAtEndOfRow txn.isolation && !rowsHeld
    | some _ => false
  let schemaGoes := match modeOf held (.table table) false with
    | none => true
    | some .SchS => heldForTheStatement.contains table
    | some _ => false
  dataGoes && schemaGoes

/-- Gives back, at the end of a statement, the table locks that were to end with it. -/
def endStatement (txn : TxnHandle) (heldForTheStatement : List TableId) : LockProgram Unit := do
  let held ← op .held
  (tablesOf held).forM fun table =>
    if goes txn heldForTheStatement held table then unlock txn (.table table) else pure ()

/-! ### Schema locks -/

def sessionTimeout : LockTimeout := .infinite

def schemaLock (table : TableId) (mode : LockMode) : LockProgram Unit :=
  take (.table table) mode sessionTimeout

/-- Takes the `SchS` of a statement that reads the shape of a table. -/
def schemaStabilityLock (table : TableId) : LockProgram Unit := schemaLock table .SchS

/-- Takes the `SchM` of a statement that changes the shape of a table. -/
def schemaModifyLock (table : TableId) : LockProgram Unit := schemaLock table .SchM

/-- Takes the `SchS` of a statement that is about to run on a table, and keeps it. -/
def holdSchemaStability (table : TableId) (timeout : LockTimeout) : LockProgram SchemaHold := do
  let held ← op .held
  if held.any fun p => p.1 = .table table then
    pure ⟨false, false⟩
  else if (← op (.tryAcquire (.table table) .SchS .noWait)) = .granted then
    pure ⟨true, false⟩
  else if timeout = .noWait then
    throw .lockRequestTimeoutOnObject
  else
    take (.table table) .SchS timeout
    pure ⟨true, true⟩

/-- Waits until no other transaction holds the `SchM` of a table. -/
def waitForSchemaStability (txn : TxnHandle) (table : TableId) (timeout : LockTimeout) :
    LockProgram Bool := do
  let hold ← holdSchemaStability table timeout
  if hold.taken then
    unlock txn (.table table)
  pure hold.waited

end LockProgram

/-! ### A session -/

inductive PolicyCall where
  | readLock (table : TableId) (row : RowId) (hints : LockIntent)
  | endRowRead (table : TableId) (row : RowId)
  | writeLock (table : TableId) (row : RowId) (hints : LockIntent)
  | endStatement (heldForTheStatement : List TableId)
  | schemaStabilityLock (table : TableId)
  | schemaModifyLock (table : TableId)
  | holdSchemaStability (table : TableId) (timeout : LockTimeout)
  | waitForSchemaStability (table : TableId) (timeout : LockTimeout)
  deriving DecidableEq

inductive PolicyAnswer where
  | access (a : ReadAccess)
  | done
  | hold (h : SchemaHold)
  | waited (b : Bool)
  deriving DecidableEq

def PolicyCall.program (txn : TxnHandle) : PolicyCall → LockProgram PolicyAnswer
  | .readLock table row hints => .access <$> LockProgram.readLock txn table row hints
  | .endRowRead table row => (fun _ => .done) <$> LockProgram.endRowRead txn table row
  | .writeLock table row hints => (fun _ => .done) <$> LockProgram.writeLock table row hints
  | .endStatement held => (fun _ => .done) <$> LockProgram.endStatement txn held
  | .schemaStabilityLock table => (fun _ => .done) <$> LockProgram.schemaStabilityLock table
  | .schemaModifyLock table => (fun _ => .done) <$> LockProgram.schemaModifyLock table
  | .holdSchemaStability table timeout => .hold <$> LockProgram.holdSchemaStability table timeout
  | .waitForSchemaStability table timeout =>
    .waited <$> LockProgram.waitForSchemaStability txn table timeout

/-- Where a call is: before its next operation, or waiting for a lock. -/
inductive LockStage where
  | next (p : Program LockOp LockOp.Answer (Except LockError PolicyAnswer))
  | waiting (c : LockCall) (timeout : LockTimeout)
      (k : LockOutcome → Program LockOp LockOp.Answer (Except LockError PolicyAnswer))

/-- One transaction on one thread: the lock manager, its row reads, its call and its answers. -/
structure LockSession where
  world : LockWorld
  rowReads : List (TxnId × TableId × RowId)
  running : Option (PolicyCall × LockStage)
  answers : List (PolicyCall × Except LockError PolicyAnswer)

/-- What is left open: whether a request gives up, how it ends then, and the options of the
database. -/
structure LockChoice where
  givesUp : Bool
  refusal : LockOutcome
  options : VersioningOptions
  deriving DecidableEq

/-- A call of the transaction begins, its thread goes on, or another one uses the lock manager. -/
inductive SessionEvent where
  | begin (c : PolicyCall)
  | run (choice : LockChoice)
  | other (a : LockAction)
  deriving DecidableEq

/-- The locks of a transaction, in the order of the resources. -/
def LockTable.heldBy (t : LockTable) (txn : TxnId) : List (LockResource × LockMode) :=
  t.entries.entries.flatMap fun e =>
    (e.2.holders.filter fun h => h.txn = txn).map fun h => (e.1, h.mode)

def LockTimeout.mayEnd : LockTimeout → LockOutcome → Bool
  | _, .granted => false
  | .infinite, .timedOut => false
  | .noWait, outcome => outcome = .timedOut
  | _, _ => true

/-- A section of a request has led to `world`: the request is answered, it gives up, or it waits. -/
def LockWorld.requested (w world : LockWorld) (timeout : LockTimeout) (givesUp : Bool)
    (refusal : LockOutcome) : Option (Option LockOutcome) :=
  if w.served.length < world.served.length then some (some .granted)
  else if givesUp then if timeout.mayEnd refusal then some (some refusal) else none
  else some none

/-- An operation that never waits, on the lock manager and the row reads. -/
def LockOp.perform (txn : TxnId) (options : VersioningOptions) (w : LockWorld)
    (rowReads : List (TxnId × TableId × RowId)) :
    (o : LockOp) → Option (LockWorld × List (TxnId × TableId × RowId) × o.Answer)
  | .tryAcquire .. => none
  | .held => some (w, rowReads, w.table.heldBy txn)
  | .unlock r =>
    if (w.table.entry r).holders.any fun h => h.txn = txn then
      some (w.retire txn r, rowReads, true)
    else some (w, rowReads, false)
  | .readVersioning level => some (w, rowReads, options.modeFor level)
  | .recordRowRead table row => some (w, rowReads.insert (txn, table, row), ())
  | .takeRowRead table row =>
    some (w, rowReads.filter (· ≠ (txn, table, row)), rowReads.contains (txn, table, row))

namespace LockSession

def start : LockSession := ⟨.initial, [], none, []⟩

variable (s : LockSession) (txn : TxnHandle)

/-- The thread goes on with the answer to its request, or waits for one. -/
def goOn (call : PolicyCall) (world : LockWorld) (c : LockCall) (timeout : LockTimeout)
    (k : LockOutcome → Program LockOp LockOp.Answer (Except LockError PolicyAnswer)) :
    Option LockOutcome → LockSession
  | some o => { s with world, running := some (call, .next (k o)) }
  | none => { s with world, running := some (call, .waiting c timeout k) }

def tryAcquire (call : PolicyCall) (r : LockResource) (mode : LockMode) (timeout : LockTimeout)
    (k : LockOutcome → Program LockOp LockOp.Answer (Except LockError PolicyAnswer))
    (choice : LockChoice) : Option LockSession :=
  let givesUp := timeout = .noWait || choice.givesUp
  let world := s.world.request txn.id r mode givesUp
  (s.world.requested world timeout givesUp choice.refusal).map
    (s.goOn call world ⟨s.world.table.nextTicket, txn.id, r, mode⟩ timeout k)

/-- The thread looks at its ticket again. -/
def wake (call : PolicyCall) (c : LockCall) (timeout : LockTimeout)
    (k : LockOutcome → Program LockOp LockOp.Answer (Except LockError PolicyAnswer))
    (choice : LockChoice) : Option LockSession :=
  let world := s.world.wake c choice.givesUp
  (s.world.requested world timeout choice.givesUp choice.refusal).map
    (s.goOn call world c timeout k)

def perform (call : PolicyCall) (choice : LockChoice) :
    (o : LockOp) → (o.Answer → Program LockOp LockOp.Answer (Except LockError PolicyAnswer)) →
      Option LockSession
  | .tryAcquire r mode timeout, k => s.tryAcquire txn call r mode timeout k choice
  | o, k => (o.perform txn.id choice.options s.world s.rowReads).map fun (world, rowReads, a) =>
    { s with world, rowReads, running := some (call, .next (k a)) }

def exec (s : LockSession) : SessionEvent → Option LockSession
  | .begin c =>
    match s.running with
    | none => some { s with running := some (c, .next (c.program txn).run) }
    | some _ => none
  | .run choice =>
    match s.running with
    | none => none
    | some (call, .next (.done a)) =>
      some { s with running := none, answers := s.answers ++ [(call, a)] }
    | some (call, .next (.call o k)) => s.perform txn call choice o k
    | some (call, .waiting c timeout k) => s.wake call c timeout k choice
  | .other a => (s.world.exec a).map fun world => { s with world }

end LockSession

def lockSession (txn : TxnHandle) : Machine LockSession SessionEvent :=
  ⟨.start, LockSession.exec txn⟩

/-- Only the thread of the session acts for its transaction. -/
def OneThread (txn : TxnHandle) (_ : LockSession) : SessionEvent → Prop
  | .other a => a.txn ≠ txn.id
  | _ => True

end VaubanDB
