import VaubanDB.Memory.Ddl

/-!
Calls of the in-memory engine and runs of calls.

A `Call` is one call of the `Storage` trait with its arguments.  Each call holds the lock while
it runs, so an interleaving of transactions is a sequence of calls.  A `Site` is the engine
together with the `History` its callers know: who has ended, and who has ended by a commit.

A run may not use a transaction again once it has ended; `allowed` says what else is asked of
its calls.
-/

namespace VaubanDB

open MemoryStorage

inductive Call where
  | createDatabase (name : String)
  | dropDatabase (db : DbId)
  | databases
  | createTable (db : DbId) (shape : TableShape)
  | dropTable (table : TableId)
  | tables (db : DbId)
  | createIndex (table : TableId) (shape : IndexShape)
  | dropIndex (index : IndexId)
  | indexes (table : TableId)
  | insert (txn : TxnId) (table : TableId) (row : Row)
  | update (txn : TxnId) (table : TableId) (id : RowId) (row : Row)
  | delete (txn : TxnId) (table : TableId) (id : RowId)
  | get (snap : Snapshot) (table : TableId) (id : RowId)
  | scan (snap : Snapshot) (table : TableId)
  | seek (snap : Snapshot) (index : IndexId) (range : KeyRange) (dir : Direction)
  | latestVersion (table : TableId) (id : RowId)
  | commit (txn : TxnId)
  | rollback (txn : TxnId)
  | savepoint (txn : TxnId)
  | rollbackTo (txn : TxnId) (sp : SavepointId)
  | checkpoint
  | vacuum (horizon : TxnId)
  deriving DecidableEq

/-- What a call that succeeds answers. -/
inductive Answer where
  | unit
  | id (n : ℕ)
  | databases (ds : List (DbId × String))
  | tables (ts : List (TableId × TableShape))
  | indexes (is : List (IndexId × IndexShape))
  | row (r : Option Row)
  | rows (rs : List (RowId × Row))
  | version (v : Option (TxnId × Row))
  deriving DecidableEq

namespace Call

def txn? : Call → Option TxnId
  | .insert t .. | .update t .. | .delete t .. | .commit t | .rollback t | .savepoint t
  | .rollbackTo t _ => some t
  | _ => none

def reading (read : Inner → SqlResult Answer) : Engine Answer := do
  let s ← MonadState.get
  EStateM.liftExcept (read s)

def exec : Call → Engine Answer
  | .createDatabase name => Answer.id <$> MemoryStorage.createDatabase name
  | .dropDatabase db => (fun _ => .unit) <$> MemoryStorage.dropDatabase db
  | .databases => reading fun s => s.listDatabases.map .databases
  | .createTable db shape => Answer.id <$> MemoryStorage.createTable db shape
  | .dropTable table => (fun _ => .unit) <$> MemoryStorage.dropTable table
  | .tables db => reading fun s => (s.listTables db).map .tables
  | .createIndex table shape => Answer.id <$> MemoryStorage.createIndex table shape
  | .dropIndex index => (fun _ => .unit) <$> MemoryStorage.dropIndex index
  | .indexes table => reading fun s => (s.listIndexes table).map .indexes
  | .insert txn table row => Answer.id <$> MemoryStorage.insert txn table row
  | .update txn table id row => (fun _ => .unit) <$> MemoryStorage.update txn table id row
  | .delete txn table id => (fun _ => .unit) <$> MemoryStorage.delete txn table id
  | .get snap table id => reading fun s => (s.get snap table id).map .row
  | .scan snap table => reading fun s => (s.scan snap table).map .rows
  | .seek snap index range dir => reading fun s => (s.seek snap index range dir).map .rows
  | .latestVersion table id => reading fun s => (s.latestVersion table id).map .version
  | .commit txn => (fun _ => .unit) <$> MemoryStorage.commit txn
  | .rollback txn => (fun _ => .unit) <$> MemoryStorage.rollback txn
  | .savepoint txn => Answer.id <$> MemoryStorage.savepoint txn
  | .rollbackTo txn sp => (fun _ => .unit) <$> MemoryStorage.rollbackTo txn sp
  | .checkpoint => (fun _ => .unit) <$> MemoryStorage.checkpoint
  | .vacuum horizon => (fun _ => .unit) <$> MemoryStorage.vacuum horizon

/-- The state after a call, whether it succeeds or fails. -/
def after (c : Call) (s : Inner) : Inner := (c.exec s).state

/-- The call fails and reports a corruption. -/
def Corrupted (c : Call) (s : Inner) : Prop :=
  ∃ e s', c.exec s = .error e s' ∧ e.isCorruption = true

end Call

/-! ### Runs -/

/-- What the callers know: the transactions that have ended, and those that committed. -/
structure History where
  ended : Set TxnId
  committed : Set TxnId

namespace History

def empty : History := ⟨∅, ∅⟩

/-- The history after a call of a transaction that had not ended. -/
def after (h : History) : Call → History
  | .commit t => ⟨Set.insert t h.ended, Set.insert t h.committed⟩
  | .rollback t => ⟨Set.insert t h.ended, h.committed⟩
  | _ => h

end History

/-- The engine and its history. -/
structure Site where
  inner : Inner
  history : History

variable {allowed : Inner → Call → Prop}

namespace Site

def initial : Site := ⟨.empty, .empty⟩

def after (σ : Site) (c : Call) : Site := ⟨c.after σ.inner, σ.history.after c⟩

/-- One call of a run: its transaction has not ended, and the call is an allowed one. -/
inductive Step (allowed : Inner → Call → Prop) (σ : Site) : Site → Prop
  | call (c : Call) (hlive : ∀ t, c.txn? = some t → t ∉ σ.history.ended)
      (hallowed : allowed σ.inner c) : Step allowed σ (σ.after c)

/-- The sites a run of allowed calls reaches from the empty storage. -/
def Reachable (allowed : Inner → Call → Prop) (σ : Site) : Prop :=
  Relation.ReflTransGen (Step allowed) initial σ

lemma Reachable.induction {P : Site → Prop} (hinit : P initial)
    (hstep : ∀ σ c, P σ → (∀ t, c.txn? = some t → t ∉ σ.history.ended) → allowed σ.inner c →
      P (σ.after c)) {σ : Site} (h : Reachable allowed σ) : P σ := by
  induction h with
  | refl => exact hinit
  | tail _ hs ih =>
    cases hs with
    | call c hlive hallowed => exact hstep _ c ih hlive hallowed

end Site

/-! ### Calls that read -/

namespace Call

/-- A call that leaves the state as it is. -/
def isRead : Call → Bool
  | .databases | .tables _ | .indexes _ | .get .. | .scan .. | .seek .. | .latestVersion ..
  | .checkpoint => true
  | _ => false

lemma state_map {α β : Type} (f : α → β) (m : Engine α) (s : Inner) :
    ((f <$> m) s).state = (m s).state := by
  simp only [Functor.map, EStateM.map]
  cases m s <;> rfl

lemma reading_state (read : Inner → SqlResult Answer) (s : Inner) : (reading read s).state = s := by
  rw [reading, EStateM.get_bind_apply]
  cases read s <;> rfl

lemma after_of_isRead {c : Call} (h : c.isRead = true) (s : Inner) : c.after s = s := by
  cases c <;> first
    | exact reading_state _ s
    | rfl
    | cases h

/-! ### What a call can do -/

/-- A call that defines a database, a table or an index. -/
def isDefinition : Call → Bool
  | .createDatabase _ | .dropDatabase _ | .createTable .. | .dropTable _ | .createIndex ..
  | .dropIndex _ => true
  | _ => false

/-- What a call can do to the engine. -/
inductive Effect (s : Inner) : Call → Inner → Prop
  /-- A read or a refusal; a transaction in progress may end. -/
  | idle {c : Call} (hend : ∀ x, c = .commit x ∨ c = .rollback x →
      (s.stateOf x).status ≠ .inProgress) : Effect s c s
  | redefined {c : Call} {s' : Inner} (hc : c.isDefinition = true)
      (h : Redefined (fun T shape => c = .createIndex T shape) s s') : Effect s c s'
  | inserted {x : TxnId} {T : TableId} {row : Row} {t : Table} {planned : List PlannedEntry}
      (ht : s.tables.get? T = some t) (hlive : (s.stateOf x).status = .inProgress)
      (hplan : s.planEntries x T row t.nextRowId t.nextSeq none = .ok planned) :
      Effect s (.insert x T row)
        (s.written x T (t.withRow x row) planned (.insert T t.nextRowId))
  | updated {x : TxnId} {T : TableId} {r : RowId} {row : Row} {t : Table} {c : List Version}
      {a : Version} {planned : List PlannedEntry} (ht : s.tables.get? T = some t)
      (hc : t.rows.get? r = some (c ++ [a])) (hxmax : a.xmax = none)
      (hcurrent : a.xmin = x ∨ s.status a.xmin = .committed)
      (hlive : (s.stateOf x).status = .inProgress)
      (hplan : s.planEntries x T row r t.nextSeq (some r) = .ok planned) :
      Effect s (.update x T r row)
        (s.written x T (t.withUpdate x r c a row) planned (.update T r))
  | deleted {x : TxnId} {T : TableId} {r : RowId} {t : Table} {c : List Version} {a : Version}
      (ht : s.tables.get? T = some t) (hc : t.rows.get? r = some (c ++ [a]))
      (hxmax : a.xmax = none) (hcurrent : a.xmin = x ∨ s.status a.xmin = .committed)
      (hlive : (s.stateOf x).status = .inProgress) :
      Effect s (.delete x T r)
        (s.written x T (t.withChain r (c ++ [{ a with xmax := some x }])) [] (.delete T r))
  | marked {x : TxnId} {marks : List (SavepointId × ℕ)} {n : SavepointId}
      (hlive : (s.stateOf x).status = .inProgress) (hmarks : marks = (s.stateOf x).savepoints ∨
        marks = (s.stateOf x).savepoints ++ [(s.nextSavepointId, (s.stateOf x).writes.length)]) :
      Effect s (.savepoint x) { s with
        txns := s.txns.insert x { s.stateOf x with savepoints := marks }
        nextSavepointId := n }
  | committed {x : TxnId} (hlive : (s.stateOf x).status = .inProgress) :
      Effect s (.commit x) { s with txns := s.txns.insert x (.finished .committed) }
  | rolledBack {x : TxnId} (hlive : (s.stateOf x).status = .inProgress) :
      Effect s (.rollback x) (undoAll x (s.stateOf x).writes
        { s with txns := s.txns.insert x (.finished .aborted) }).state
  | returned {x : TxnId} {sp : SavepointId} {state : TxnState} {pos mark : ℕ}
      (hs : s.txns.get? x = some state) (hlive : state.status = .inProgress)
      (hpos : state.savepoints[pos]? = some (sp, mark)) (hmark : mark ≤ state.writes.length) :
      Effect s (.rollbackTo x sp) (undoAll x (state.writes.drop mark)
        { s with txns := s.txns.insert x { state with
          savepoints := state.savepoints.take (pos + 1)
          writes := state.writes.take mark } }).state
  | vacuumed (horizon : TxnId) : Effect s (.vacuum horizon) (MemoryStorage.vacuum horizon s).state

lemma effect_savepoint (s : Inner) (x : TxnId) :
    Effect s (.savepoint x) (MemoryStorage.savepoint x s).state := by
  by_cases hstatus : (s.stateOf x).status = .inProgress
  · rcases savepoint_outcome hstatus with ⟨_, ho⟩ | ho <;> rw [ho]
    · exact .marked (n := s.nextSavepointId) hstatus (.inl rfl)
    · exact .marked hstatus (.inr rfl)
  · obtain ⟨_, ho⟩ := savepoint_of_finished hstatus
    rw [ho]
    exact .idle nofun

lemma redefines {s : Inner} (hcat : Catalog s) (hrows : Rows s) (c : Call)
    (hc : c.isDefinition = true) :
    Redefines (fun T shape => c = .createIndex T shape) s (c.after s) := by
  cases c <;> first
    | exact absurd hc Bool.false_ne_true
    | simp only [after, exec, state_map]
  case createDatabase => exact createDatabase_redefines hcat hrows _
  case dropDatabase => exact dropDatabase_redefines hcat hrows _
  case createTable => exact createTable_redefines hcat hrows _ _
  case dropTable => exact dropTable_redefines hcat hrows _
  case createIndex => exact createIndex_redefines hcat hrows rfl
  case dropIndex => exact dropIndex_redefines hcat hrows _

/-- What a call can do. -/
theorem effect {s : Inner} (hcat : Catalog s) (hrows : Rows s) (c : Call) :
    Effect s c (c.after s) := by
  by_cases hread : c.isRead = true
  · rw [after_of_isRead hread]
    refine .idle fun x hx => ?_
    rcases hx with rfl | rfl <;> cases hread
  by_cases hdef : c.isDefinition = true
  · exact .redefined hdef (c.redefines hcat hrows hdef).redefined
  cases c <;> first
    | exact absurd rfl hread
    | exact absurd rfl hdef
    | simp only [after, exec, state_map]
  case insert x T row =>
    rcases insert_outcome s x T row with ⟨_, ho, _⟩ | ⟨t, planned, ht, _, hlive, hplan, ho⟩ <;>
      rw [ho]
    · exact .idle nofun
    · exact .inserted ht hlive hplan
  case update x T r row =>
    rcases update_outcome s x T r row with
      ⟨_, ho, _⟩ | ⟨t, c, a, planned, ht, _, hc, hxmax, hcurrent, hlive, hplan, ho⟩ <;> rw [ho]
    · exact .idle nofun
    · exact .updated ht hc hxmax hcurrent hlive hplan
  case delete x T r =>
    rcases delete_outcome s x T r with
      ⟨_, ho, _⟩ | ⟨t, c, a, ht, hc, hxmax, hcurrent, hlive, ho⟩ <;> rw [ho]
    · exact .idle nofun
    · exact .deleted ht hc hxmax hcurrent hlive
  case commit x =>
    rcases commit_outcome s x with ⟨_, ho, hstatus⟩ | ⟨hlive, ho⟩ <;> rw [ho]
    · refine .idle fun y hy => ?_
      rcases hy with hy | hy <;> cases hy
      exact hstatus
    · exact .committed hlive
  case rollback x =>
    rcases rollback_outcome s x with ⟨_, ho, hstatus⟩ | ⟨hlive, ho⟩ <;> rw [ho]
    · refine .idle fun y hy => ?_
      rcases hy with hy | hy <;> cases hy
      exact hstatus
    · exact .rolledBack hlive
  case savepoint x => exact effect_savepoint s x
  case rollbackTo x sp =>
    rcases rollbackTo_outcome sp with
      ⟨_, ho, _⟩ | ⟨state, pos, mark, hs, hlive, hpos, hmark, ho⟩ <;>
      rw [ho]
    · exact .idle nofun
    · exact .returned hs hlive hpos hmark
  case vacuum horizon => exact .vacuumed horizon

end Call

/-! ### The catalogue and the rows in every run -/

section Sound

variable {s : Inner} (hcat : Catalog s) (hrows : Rows s)
include hcat hrows

lemma insertTxn_sound (txn : TxnId) (state : TxnState)
    (h : state.status ≠ .aborted → (s.stateOf txn).status = .inProgress) :
    Catalog { s with txns := s.txns.insert txn state } ∧
      Rows { s with txns := s.txns.insert txn state } := by
  refine withTxns_sound hcat hrows _ fun x hx => ?_
  have hs := status_insert_txn s txn state x
  rw [Inner.status] at hs
  rw [hs] at hx
  split_ifs at hx with hxt
  · exact hxt ▸ status_of_inProgress (h hx)
  · exact hx

/-- Every call keeps the catalogue and the rows, whether it succeeds or fails. -/
theorem Call.after_sound (c : Call) : Catalog (c.after s) ∧ Rows (c.after s) := by
  have heff := c.effect hcat hrows
  generalize hs' : c.after s = s' at heff ⊢
  cases heff with
  | idle => exact ⟨hcat, hrows⟩
  | redefined hc =>
    have hsound := c.redefines hcat hrows hc
    rw [hs'] at hsound
    exact ⟨hsound.catalog, hsound.rows⟩
  | @inserted x T row =>
    rw [← hs', after, exec, state_map]
    exact insert_sound hcat hrows x T row
  | @updated x T r row =>
    rw [← hs', after, exec, state_map]
    exact update_sound hcat hrows x T r row
  | deleted ht hc _ _ hlive => exact delete_sound hcat hrows ht hc hlive
  | marked hlive =>
    obtain ⟨hc, hr⟩ := insertTxn_sound hcat hrows _ _ fun _ => hlive
    exact ⟨{ hc with }, { hr with }⟩
  | committed hlive => exact insertTxn_sound hcat hrows _ _ fun _ => hlive
  | rolledBack =>
    exact undoAll_preserves _ _ _ (insertTxn_sound hcat hrows _ _ fun h => absurd rfl h)
  | returned hs hlive =>
    refine undoAll_preserves _ _ _ (insertTxn_sound hcat hrows _ _ fun _ => ?_)
    rwa [Inner.stateOf, hs]
  | vacuumed horizon => exact vacuum_sound hcat hrows horizon

end Sound

lemma Site.initial_sound : Catalog Site.initial.inner ∧ Rows Site.initial.inner :=
  ⟨⟨nofun, nofun, nofun, nofun, nofun, nofun, nofun⟩, ⟨nofun, nofun⟩⟩

/-- The catalogue and the rows are sound in every run. -/
theorem Site.Reachable.sound {σ : Site}
    (h : σ.Reachable allowed) : Catalog σ.inner ∧ Rows σ.inner :=
  h.induction (P := fun σ => Catalog σ.inner ∧ Rows σ.inner) initial_sound
    fun _ c hσ _ _ => c.after_sound hσ.1 hσ.2

end VaubanDB
