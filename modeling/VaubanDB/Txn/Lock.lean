import VaubanDB.Library.Machine
import VaubanDB.Library.OrderedMap
import VaubanDB.Storage.Contract

/-!
The lock manager (`vauban-txn/src/lock.rs`): lock modes, the compatibility matrix, the queue of a
resource, and the calls of the manager as sections that run under its mutex.

A call of `tryAcquire` is a first section, which queues the request and runs a grant pass, and then
one section per wake-up, until its ticket is granted or the call gives up; when it does is left to
the `Action`.  `World` is the table with the calls that wait, the grants the callers hold on to, and
a log of what happened to each request.
-/

namespace VaubanDB

/-! ### Resources and modes -/

inductive LockResource where
  | row (table : TableId) (row : RowId)
  | table (table : TableId)
  deriving DecidableEq

namespace LockResource

/-- The place of a resource in the order of the manager: rows first. -/
def code : LockResource → ℕ ×ₗ ℕ ×ₗ ℕ
  | .row t r => toLex (0, toLex (t, r))
  | .table t => toLex (1, toLex (t, 0))

lemma code_injective : Function.Injective code := by
  intro a b h
  cases a <;> cases b <;> simp_all [code]

instance : LinearOrder LockResource := LinearOrder.lift' code code_injective

end LockResource

inductive LockMode where
  | S
  | X
  | U
  | IS
  | IX
  | SchS
  | SchM
  deriving DecidableEq

namespace LockMode

/-- The modes this one is at least as strong as, itself included. -/
def below : LockMode → List LockMode
  | .IS => [.IS]
  | .S => [.IS, .S]
  | .U => [.IS, .S, .U]
  | .IX => [.IS, .IX]
  | .X => [.IS, .S, .U, .IX, .X]
  | .SchS => [.SchS]
  | .SchM => [.SchS, .SchM]

/-- Holding `m` already gives what `other` asks for. -/
def covers (m other : LockMode) : Bool := m.below.contains other

def isData : LockMode → Bool
  | .SchS | .SchM => false
  | _ => true

/-- The weakest mode that covers both, inside one family. -/
def join (m other : LockMode) : LockMode :=
  if m.covers other then m
  else if other.covers m then other
  else if m.isData && other.isData then .X
  else .SchM

/-- A transaction may hold `m` while another one holds `held`. -/
def compatibleWith : LockMode → LockMode → Bool
  | .SchM, _ => false
  | _, .SchM => false
  | .SchS, _ => true
  | _, .SchS => true
  | .X, _ => false
  | _, .X => false
  | .IS, _ => true
  | _, .IS => true
  | .U, .U => false
  | .S, .U => true
  | .U, .S => true
  | .S, .S => true
  | .IX, .IX => true
  | .IX, _ => false
  | _, .IX => false

lemma compatibleWith_comm (m n : LockMode) : m.compatibleWith n = n.compatibleWith m := by
  cases m <;> cases n <;> rfl

lemma covers_refl (m : LockMode) : m.covers m = true := by cases m <;> rfl

variable {n m : LockMode}

lemma covers_trans {o : LockMode} (hmn : m.covers n = true) (hno : n.covers o = true) :
    m.covers o = true := by
  revert hmn hno
  cases m <;> cases n <;> cases o <;> decide

lemma isData_of_covers (h : m.covers n = true) : m.isData = n.isData := by
  revert h
  cases m <;> cases n <;> decide

lemma isData_join (h : m.isData = n.isData) : (m.join n).isData = n.isData := by
  revert h
  cases m <;> cases n <;> decide

lemma join_covers_left (h : m.isData = n.isData) : (m.join n).covers m = true := by
  revert h
  cases m <;> cases n <;> decide

lemma join_covers_right (h : m.isData = n.isData) : (m.join n).covers n = true := by
  revert h
  cases m <;> cases n <;> decide

end LockMode

/-! ### The holders and the queue of one resource -/

structure Holder where
  txn : TxnId
  mode : LockMode
  deriving DecidableEq

structure Waiter where
  ticket : ℕ
  txn : TxnId
  /-- The mode asked for; for a conversion, the joined mode. -/
  mode : LockMode
  conversion : Bool
  deriving DecidableEq

def holderOf (holders : List Holder) (txn : TxnId) (mode : LockMode) : Option LockMode :=
  (holders.find? fun h => h.txn = txn ∧ h.mode.isData = mode.isData).map Holder.mode

/-- `mode` asked by `txn` stands against no holder of another transaction. -/
def holdersAllow (holders : List Holder) (txn : TxnId) (mode : LockMode) : Bool :=
  holders.all fun h => h.txn = txn || mode.compatibleWith h.mode

/-- Marks a lock as held, in the place of the mode of the same family if there is one. -/
def grantTo (txn : TxnId) (mode : LockMode) : List Holder → List Holder
  | [] => [⟨txn, mode⟩]
  | h :: hs =>
    if h.txn = txn ∧ h.mode.isData = mode.isData then ⟨txn, mode⟩ :: hs
    else h :: grantTo txn mode hs

structure LockEntry where
  holders : List Holder
  queue : List Waiter
  deriving DecidableEq

namespace LockEntry

def empty : LockEntry := ⟨[], []⟩

def isEmpty (e : LockEntry) : Bool := e.holders.isEmpty && e.queue.isEmpty

/-- Puts a candidate in the queue: a conversion behind the conversions, others at the back. -/
def put (e : LockEntry) (w : Waiter) : LockEntry :=
  if w.conversion then
    { e with
      queue := e.queue.takeWhile Waiter.conversion ++ w :: e.queue.dropWhile Waiter.conversion }
  else { e with queue := e.queue ++ [w] }

/-- The loop of a grant pass.  Answers the holders, the rest of the queue and who was granted. -/
def grantLoop : List Holder → List Waiter → LockEntry × List Waiter
  | holders, [] => (⟨holders, []⟩, [])
  | holders, w :: queue =>
    if holdersAllow holders w.txn w.mode then
      let (e, granted) := grantLoop (grantTo w.txn w.mode holders) queue
      (e, w :: granted)
    else (⟨holders, w :: queue⟩, [])

/-- Takes a transaction out of the holders and out of the queue. -/
def without (e : LockEntry) (txn : TxnId) : LockEntry :=
  ⟨e.holders.filter fun h => h.txn ≠ txn, e.queue.filter fun w => w.txn ≠ txn⟩

end LockEntry

/-! ### The table -/

/-- The resources with a holder or a waiter, and the tickets granted since their waiter last
looked. -/
structure LockTable where
  entries : OrderedMap LockResource LockEntry
  nextTicket : ℕ
  granted : List ℕ
  deriving DecidableEq

/-- What a request found when it reached the table. -/
inductive LockRequest where
  | reentrant
  | queued (w : Waiter)
  deriving DecidableEq

namespace LockTable

def empty : LockTable := ⟨.empty, 0, []⟩

variable (t : LockTable)

def entry (r : LockResource) : LockEntry := (t.entries.get? r).getD .empty

/-- The candidate a request becomes, unless its transaction already covers it. -/
def request (txn : TxnId) (r : LockResource) (mode : LockMode) : LockRequest :=
  match holderOf (t.entry r).holders txn mode with
  | some held =>
    if held.covers mode then .reentrant
    else .queued ⟨t.nextTicket, txn, held.join mode, true⟩
  | none => .queued ⟨t.nextTicket, txn, mode, false⟩

/-- Places a request in the table, or reports that the transaction already covers it. -/
def enqueue (txn : TxnId) (r : LockResource) (mode : LockMode) : LockRequest × LockTable :=
  let t' := { t with nextTicket := t.nextTicket + 1 }
  match t.request txn r mode with
  | .reentrant => (.reentrant, t')
  | .queued w => (.queued w, { t' with entries := t.entries.insert r ((t.entry r).put w) })

/-- Replaces the entry of a resource, which is forgotten when it is empty. -/
def setEntry (r : LockResource) (e : LockEntry) : LockTable :=
  if e.isEmpty then { t with entries := t.entries.erase r }
  else { t with entries := t.entries.insert r e }

/-- The candidates a grant pass would honour now. -/
def grants (r : LockResource) : List Waiter :=
  (LockEntry.grantLoop (t.entry r).holders (t.entry r).queue).2

/-- Grants the front of the queue as far as the holders allow. -/
def grantPass (r : LockResource) : LockTable :=
  let (e, granted) := LockEntry.grantLoop (t.entry r).holders (t.entry r).queue
  { t.setEntry r e with granted := t.granted ++ granted.map Waiter.ticket }

def waiting (r : LockResource) (ticket : ℕ) : Option Waiter :=
  (t.entry r).queue.find? fun w => w.ticket = ticket

def dropTicket (r : LockResource) (ticket : ℕ) : LockTable :=
  let e := t.entry r
  { t with
    entries := t.entries.insert r { e with queue := e.queue.eraseP fun w => w.ticket = ticket } }

def retire (r : LockResource) (txn : TxnId) : LockTable :=
  { t with entries := t.entries.insert r ((t.entry r).without txn) }

/-- The resources a transaction holds or waits for. -/
def touched (txn : TxnId) : List LockResource :=
  (t.entries.entries.filter fun (_, e) =>
    e.holders.any (fun h => h.txn = txn) || e.queue.any fun w => w.txn = txn).map Prod.fst

end LockTable

/-! ### The manager -/

/-- A call of `tryAcquire` that waits on its ticket. -/
structure LockCall where
  ticket : ℕ
  txn : TxnId
  resource : LockResource
  mode : LockMode
  deriving DecidableEq

structure Grant where
  txn : TxnId
  resource : LockResource
  mode : LockMode
  deriving DecidableEq

/-- What happened to a request. -/
inductive LockEvent where
  | queued (r : LockResource) (w : Waiter)
  | granted (r : LockResource) (w : Waiter)
  | left (r : LockResource) (w : Waiter)
  deriving DecidableEq

/-- The table, the calls that wait, the grants in use and the log. -/
structure LockWorld where
  table : LockTable
  parked : List LockCall
  served : List Grant
  log : List LockEvent
  deriving DecidableEq

/-- One section under the mutex of the manager. -/
inductive LockAction where
  /-- The first section of a `tryAcquire`; `givesUp` when it may not wait any longer. -/
  | request (txn : TxnId) (r : LockResource) (mode : LockMode) (givesUp : Bool)
  /-- A wake-up of a waiting call: it looks at its ticket, then gives up or waits again. -/
  | wake (c : LockCall) (givesUp : Bool)
  | unlock (txn : TxnId) (r : LockResource)
  /-- The resources of the transaction are released in the order the hash map lists them. -/
  | releaseAll (txn : TxnId) (order : List LockResource)
  deriving DecidableEq

namespace LockWorld

def initial : LockWorld := ⟨.empty, [], [], []⟩

variable (w : LockWorld)

def grantPass (r : LockResource) : LockWorld :=
  { w with
    table := w.table.grantPass r
    log := w.log ++ (w.table.grants r).map (LockEvent.granted r) }

def drop (r : LockResource) (x : Waiter) : LockWorld :=
  { w with table := w.table.dropTicket r x.ticket, log := w.log ++ [.left r x] }

/-- A call leaves the queue, if it is there, and the candidates behind it take their turn. -/
def giveUp (r : LockResource) (ticket : ℕ) : LockWorld :=
  match w.table.waiting r ticket with
  | none => w
  | some x => (w.drop r x).grantPass r

/-- A transaction gives a resource back: what it holds, what it waits for, what it was
answered. -/
def leave (txn : TxnId) (r : LockResource) : LockWorld :=
  { w with
    table := w.table.retire r txn
    served := w.served.filter fun g => ¬ (g.txn = txn ∧ g.resource = r)
    log := w.log ++ ((w.table.entry r).queue.filter fun x => x.txn = txn).map (.left r) }

/-- A transaction gives a resource back, and the candidates it was blocking take their turn. -/
def retire (txn : TxnId) (r : LockResource) : LockWorld := (w.leave txn r).grantPass r

/-- The call is answered: its ticket leaves the granted ones. -/
def answer (c : LockCall) : LockWorld :=
  { w with
    table := { w.table with granted := w.table.granted.erase c.ticket }
    served := w.served ++ [⟨c.txn, c.resource, c.mode⟩] }

def unpark (c : LockCall) : LockWorld := { w with parked := w.parked.erase c }

def request (txn : TxnId) (r : LockResource) (mode : LockMode) (givesUp : Bool) : LockWorld :=
  match w.table.enqueue txn r mode with
  | (.reentrant, t) => { w with table := t, served := w.served ++ [⟨txn, r, mode⟩] }
  | (.queued waiter, t) =>
    let c : LockCall := ⟨waiter.ticket, txn, r, mode⟩
    let w' := ({ w with table := t, log := w.log ++ [.queued r waiter] } : LockWorld).grantPass r
    if w'.table.granted.contains c.ticket then w'.answer c
    else if givesUp then w'.giveUp r c.ticket
    else { w' with parked := w'.parked ++ [c] }

/-- A section of a call that was woken up. -/
def wake (c : LockCall) (givesUp : Bool) : LockWorld :=
  if w.table.granted.contains c.ticket then (w.unpark c).answer c
  else if givesUp then (w.unpark c).giveUp c.resource c.ticket
  else w

/-- What an action makes of the world; `unlock` of what is not held changes nothing. -/
def exec : LockAction → Option LockWorld
  | .request txn r mode givesUp => some (w.request txn r mode givesUp)
  | .wake c givesUp => if c ∈ w.parked then some (w.wake c givesUp) else none
  | .unlock txn r =>
    if (w.table.entry r).holders.any fun h => h.txn = txn then some (w.retire txn r) else some w
  | .releaseAll txn order =>
    if order.isPerm (w.table.touched txn) then some (order.foldl (fun w r => w.retire txn r) w)
    else none

end LockWorld

def lockManager : Machine LockWorld LockAction := ⟨.initial, LockWorld.exec⟩

end VaubanDB
