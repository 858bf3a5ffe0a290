import VaubanDB.Library.Results
import VaubanDB.Storage.Contract

/-!
The deferred drops and the compensations of a transaction (`vauban-txn/src/actions.rs`,
`manager.rs`).

A transaction keeps its drops for the commit, and the drops that undo its creations for a rollback,
in one log, with its savepoints as marks.  `surviving` says what no return to an earlier savepoint
has undone; the log holds exactly that (`Ran.log_eq`), so each end of the transaction runs what it
should.
-/

namespace VaubanDB

open EStateM

/-- A drop that the storage is asked for later. -/
inductive Drop where
  | dropTable (table : TableId)
  | dropIndex (index : IndexId)
  | dropDatabase (db : DbId)
  deriving DecidableEq, Repr

/-- An entry of an action log: a deferred drop, the drop of an object created, or a savepoint. -/
inductive LogEntry where
  | onCommit (action : Drop)
  | onRollback (action : Drop)
  | mark (sp : SavepointId)
  deriving DecidableEq, Repr

namespace LogEntry

def commitAction? : LogEntry → Option Drop
  | .onCommit action => some action
  | _ => none

def rollbackAction? : LogEntry → Option Drop
  | .onRollback action => some action
  | _ => none

end LogEntry

/-- The calls of the storage for one transaction. -/
structure DdlStorage (S : Type) where
  drop : Drop → EStateM SqlError S Unit
  savepoint : EStateM SqlError S SavepointId
  rollbackTo : SavepointId → EStateM SqlError S Unit
  commit : EStateM SqlError S Unit
  rollback : EStateM SqlError S Unit

abbrev ActionLog := List LogEntry

namespace ActionLog

variable {S : Type} (storage : DdlStorage S) (log : ActionLog)

def positionOf (sp : SavepointId) : Option ℕ := log.findIdx? (· = .mark sp)

def runOnCommit : EStateM SqlError S Unit := log.forM fun
  | .onCommit action => storage.drop action
  | _ => pure ()

def compensate : EStateM SqlError S Unit := log.reverse.forM fun
  | .onRollback action => storage.drop action
  | _ => pure ()

lemma runOnCommit_eq :
    log.runOnCommit storage = (log.filterMap LogEntry.commitAction?).forM storage.drop := by
  induction log with
  | nil => rfl
  | cons e es ih => cases e <;> simp_all [runOnCommit, List.filterMap_cons, LogEntry.commitAction?]

lemma compensate_eq : log.compensate storage =
    (log.filterMap LogEntry.rollbackAction?).reverse.forM storage.drop := by
  rw [compensate, ← List.filterMap_reverse]
  induction log.reverse with
  | nil => rfl
  | cons e es ih => cases e <;> simp_all [List.filterMap_cons, LogEntry.rollbackAction?]

variable {log} {sp : SavepointId}

lemma positionOf_of_notMem (h : .mark sp ∉ log) : log.positionOf sp = none :=
  List.findIdx?_eq_none_iff.mpr fun _ he => decide_eq_false fun heq => h (heq ▸ he)

lemma positionOf_split (h : .mark sp ∉ log) (rest : ActionLog) :
    positionOf (log ++ .mark sp :: rest) sp = some log.length := by
  have hnone := positionOf_of_notMem h
  rw [positionOf] at hnone ⊢
  simp [List.findIdx?_append, List.findIdx?_cons, hnone]

end ActionLog

/-- An open transaction and the storage. -/
structure DdlTxn (S : Type) where
  id : TxnId
  log : ActionLog
  storage : S

namespace DdlTxn

variable {S α : Type} (storage : DdlStorage S) {t t' : DdlTxn S}

def calling (m : EStateM SqlError S α) : EStateM SqlError (DdlTxn S) α := fun t =>
  match m t.storage with
  | .ok a s => .ok a { t with storage := s }
  | .error e s => .error e { t with storage := s }

def register (entry : LogEntry) : EStateM SqlError (DdlTxn S) Unit :=
  modify fun t => { t with log := t.log ++ [entry] }

def registerOnCommit (action : Drop) : EStateM SqlError (DdlTxn S) Unit :=
  register (.onCommit action)

def registerOnRollback (action : Drop) : EStateM SqlError (DdlTxn S) Unit :=
  register (.onRollback action)

def savepoint : EStateM SqlError (DdlTxn S) SavepointId := do
  let sp ← calling storage.savepoint
  register (.mark sp)
  return sp

def rollbackTo (sp : SavepointId) : EStateM SqlError (DdlTxn S) Unit := do
  let ⟨id, log, _⟩ ← get
  match log.positionOf sp with
  | none => throw (.internal (.bug
      s!"TransactionManager::rollback_to: savepoint {sp} is not held by transaction {id}"))
  | some pos =>
    calling (ActionLog.compensate storage (log.drop (pos + 1)))
    modify fun t => { t with log := log.take (pos + 1) }
    calling (storage.rollbackTo sp)

/-- The log is out of its entry for as long as the commit runs, and back when it fails. -/
def finishCommit : EStateM SqlError (DdlTxn S) Unit := fun t =>
  match calling (do t.log.runOnCommit storage; storage.commit) { t with log := [] } with
  | .ok _ t' => .ok () t'
  | .error e t' => .error e { t' with log := t.log }

def rollback : EStateM SqlError (DdlTxn S) Unit := do
  let t ← get
  calling (do t.log.compensate storage; storage.rollback)
  modify fun t => { t with log := [] }

lemma calling_eq_ok_iff {m : EStateM SqlError S α} {a : α} : calling m t = .ok a t' ↔
    ∃ s, m t.storage = .ok a s ∧ t' = { t with storage := s } := by
  unfold calling
  cases m t.storage <;> simp [eq_comm]

variable {storage} {sp : SavepointId}

lemma savepoint_eq_ok (h : savepoint storage t = .ok sp t') : t'.log = t.log ++ [.mark sp] := by
  obtain ⟨sp', t₁, hcall, h⟩ := bind_eq_ok_iff.mp h
  obtain ⟨s, _, rfl⟩ := calling_eq_ok_iff.mp hcall
  cases h
  rfl

lemma rollbackTo_eq_ok_iff : rollbackTo storage sp t = .ok () t' ↔
    ∃ pos, t.log.positionOf sp = some pos ∧ ∃ s,
      (do (ActionLog.compensate storage (t.log.drop (pos + 1))); storage.rollbackTo sp) t.storage =
        .ok () s ∧ t' = ⟨t.id, t.log.take (pos + 1), s⟩ := by
  rw [rollbackTo, get_bind_apply]
  cases hpos : t.log.positionOf sp with
  | none => simp [hpos]
  | some pos =>
    simp only [hpos, bind_eq_ok_iff, modify_bind_apply, calling_eq_ok_iff]
    grind

lemma finishCommit_eq_ok_iff : finishCommit storage t = .ok () t' ↔
    ∃ s, (do t.log.runOnCommit storage; storage.commit) t.storage = .ok () s ∧
      t' = ⟨t.id, [], s⟩ := by
  rw [← calling_eq_ok_iff (t := { t with log := [] }), finishCommit]
  cases calling (do t.log.runOnCommit storage; storage.commit) { t with log := [] } <;> simp

lemma rollback_eq_ok_iff : rollback storage t = .ok () t' ↔
    ∃ s, (do t.log.compensate storage; storage.rollback) t.storage = .ok () s ∧
      t' = ⟨t.id, [], s⟩ := by
  rw [rollback, get_bind_apply]
  simp only [bind_eq_ok_iff, modify_apply, calling_eq_ok_iff]
  grind

end DdlTxn

/-! ### What is not undone -/

/-- A call that has succeeded: an entry was put into the log, or a savepoint returned to. -/
inductive DdlEvent where
  | entry (e : LogEntry)
  | rollbackTo (sp : SavepointId)
  deriving DecidableEq, Repr

namespace DdlEvent

abbrev taken (sp : SavepointId) : DdlEvent := .entry (.mark sp)

/-- The event returns to no savepoint of `before`, so it undoes nothing that comes next. -/
def keeps (before : List DdlEvent) : DdlEvent → Bool
  | .rollbackTo sp => taken sp ∉ before
  | .entry _ => true

/-- What the events after `before` put into the log and nothing up to the end of `later` undoes. -/
def surviving (later : List DdlEvent) : List DdlEvent → List DdlEvent → List LogEntry
  | _, [] => []
  | before, .rollbackTo sp :: es => surviving later (before ++ [.rollbackTo sp]) es
  | before, .entry e :: es => (if (es ++ later).all (keeps before) then [e] else []) ++
      surviving later (before ++ [.entry e]) es

variable {later before es : List DdlEvent} {sp : SavepointId}

lemma surviving_append (later before es fs : List DdlEvent) : surviving later before (es ++ fs) =
      surviving (fs ++ later) before es ++ surviving later (before ++ es) fs := by
  induction es generalizing before with
  | nil => simp [surviving]
  | cons e es ih => cases e <;> simp [surviving, ih]

lemma mem_of_surviving {e : LogEntry} (h : e ∈ surviving later before es) : .entry e ∈ es := by
  induction es generalizing before with
  | nil => simp [surviving] at h
  | cons e' es ih => cases e' <;> grind [surviving]

lemma surviving_snoc {e : DdlEvent} (later : List DdlEvent)
    (h : ∀ b, b <+: before ++ es → e.keeps b = true) :
    surviving (later ++ [e]) before es = surviving later before es := by
  induction es generalizing before with
  | nil => rfl
  | cons e' es ih =>
    have hb : e.keeps before = true := h before (List.prefix_append _ _)
    have hrest := ih (by rwa [List.append_assoc] : ∀ b, b <+: before ++ [e'] ++ es → _)
    cases e' <;> simp [surviving, hrest, hb]

lemma surviving_undone (h : taken sp ∈ before) : surviving [.rollbackTo sp] before es = [] := by
  induction es generalizing before with
  | nil => rfl
  | cons e es ih => cases e <;> simp [surviving, ih, keeps, h]

lemma surviving_at (later before after : List DdlEvent) (sp : SavepointId) :
    surviving later [] (before ++ taken sp :: after) =
      surviving (taken sp :: after ++ later) [] before ++
        (if (after ++ later).all (keeps before) then [.mark sp] else []) ++
        surviving later (before ++ [taken sp]) after := by
  simp [surviving_append, surviving]

/-- A savepoint that nothing has undone splits what survives: a return to it leaves the part before,
with the savepoint. -/
lemma surviving_cut (hbefore : taken sp ∉ before) (hall : after.all (keeps before) = true) :
    let n := (surviving (taken sp :: after) [] before).length + 1
    (surviving [] [] (before ++ taken sp :: after)).take n =
        surviving [] [] (before ++ taken sp :: after ++ [.rollbackTo sp]) ∧
      (surviving [] [] (before ++ taken sp :: after)).drop n =
        surviving [] (before ++ [taken sp]) after := by
  have hkept : surviving (taken sp :: after ++ [.rollbackTo sp]) [] before =
      surviving (taken sp :: after) [] before :=
    surviving_snoc _ fun b hb => decide_eq_true fun hm => hbefore (hb.subset hm)
  have hleft : surviving [] [] (before ++ taken sp :: after ++ [.rollbackTo sp]) =
      surviving (taken sp :: after) [] before ++ [.mark sp] := by
    rw [surviving_append, List.append_nil, surviving_at, hkept, surviving_undone (by simp)]
    simp [surviving, keeps, hbefore, hall]
  rw [hleft, surviving_at]
  simp [hall, List.take_append]

end DdlEvent

open DdlEvent

/-- What successful calls make of a transaction; the storage hands out new savepoints. -/
inductive Ran {S : Type} (storage : DdlStorage S) : List DdlEvent → DdlTxn S → Prop
  | start (id : TxnId) (s : S) : Ran storage [] ⟨id, [], s⟩
  | other {es t} (h : Ran storage es t) (s : S) : Ran storage es { t with storage := s }
  | onCommit {es t t'} (action : Drop) (h : Ran storage es t)
      (hs : DdlTxn.registerOnCommit action t = .ok () t') :
      Ran storage (es ++ [.entry (.onCommit action)]) t'
  | onRollback {es t t'} (action : Drop) (h : Ran storage es t)
      (hs : DdlTxn.registerOnRollback action t = .ok () t') :
      Ran storage (es ++ [.entry (.onRollback action)]) t'
  | savepoint {es t t' sp} (h : Ran storage es t) (hs : DdlTxn.savepoint storage t = .ok sp t')
      (hnew : taken sp ∉ es) : Ran storage (es ++ [taken sp]) t'
  | rollbackTo {es t t' sp} (h : Ran storage es t)
      (hs : DdlTxn.rollbackTo storage sp t = .ok () t') : Ran storage (es ++ [.rollbackTo sp]) t'

section Runs

variable {S : Type} {storage : DdlStorage S} {es before after : List DdlEvent} {t : DdlTxn S}
  {sp : SavepointId}

lemma Ran.distinct (h : Ran storage (before ++ taken sp :: after) t) :
    taken sp ∉ before ∧ taken sp ∉ after := by
  have hone : ∀ {es t}, Ran storage es t → es.count (taken sp) ≤ 1 := by
    intro es t h
    induction h with
    | start => exact Nat.zero_le 1
    | other _ _ ih => exact ih
    | onCommit | onRollback | rollbackTo => simpa
    | @savepoint es _ _ sp' _ _ hnew ih =>
      by_cases heq : sp = sp'
      · simp [heq, List.count_eq_zero.mpr hnew]
      · simpa [Ne.symm heq]
  have hle := hone h
  rw [List.count_append, List.count_cons_self] at hle
  exact ⟨List.count_eq_zero.mp (by omega), List.count_eq_zero.mp (by omega)⟩

/-- The mark of a savepoint is in the log as long as nothing undoes the savepoint. -/
lemma Ran.positionOf_eq_some_iff (h : Ran storage es t) {pos : ℕ} :
    ActionLog.positionOf (surviving [] [] es) sp = some pos ↔ ∃ before after,
      es = before ++ taken sp :: after ∧ after.all (keeps before) = true ∧
        pos = (surviving (taken sp :: after) [] before).length := by
  by_cases hmem : taken sp ∈ es
  swap
  · rw [ActionLog.positionOf_of_notMem fun hm => hmem (mem_of_surviving hm)]
    grind
  obtain ⟨before, after, rfl⟩ := List.append_of_mem hmem
  obtain ⟨hbefore, hafter⟩ := h.distinct
  have hleft : .mark sp ∉ surviving (taken sp :: after) [] before :=
    fun hm => hbefore (mem_of_surviving hm)
  have hright : .mark sp ∉ surviving [] (before ++ [taken sp]) after :=
    fun hm => hafter (mem_of_surviving hm)
  simp only [surviving_at, List.append_nil, List.append_cons_inj_of_notMem hbefore hafter]
  split_ifs with hall
  · simp [ActionLog.positionOf_split hleft, hall, eq_comm]
  · rw [ActionLog.positionOf_of_notMem (by simp [hleft, hright])]
    simp [hall]

lemma Ran.log_eq (h : Ran storage es t) : t.log = surviving [] [] es := by
  have hadd : ∀ (es : List DdlEvent) (e : LogEntry),
      surviving [] [] (es ++ [.entry e]) = surviving [] [] es ++ [e] := by
    intro es e
    have hsame : surviving [.entry e] [] es = surviving [] [] es := surviving_snoc [] fun _ _ => rfl
    simp [surviving_append, surviving, hsame]
  induction h with
  | start => rfl
  | other _ _ ih => exact ih
  | onCommit action _ hs ih | onRollback action _ hs ih =>
    cases hs
    rw [hadd, ← ih]
  | savepoint _ hs _ ih => rw [hadd, ← ih, DdlTxn.savepoint_eq_ok hs]
  | rollbackTo h hs ih =>
    obtain ⟨pos, hpos, s, _, rfl⟩ := DdlTxn.rollbackTo_eq_ok_iff.mp hs
    rw [ih] at hpos
    obtain ⟨before, after, rfl, hall, rfl⟩ := h.positionOf_eq_some_iff.mp hpos
    rw [ih, (surviving_cut h.distinct.1 hall).1]

end Runs

/-- A commit runs the drops that nothing has undone, in their order.  A rollback runs the
compensations that no return to a savepoint has run, last first.  A savepoint is accepted when no
return to an earlier one has come since, and the compensations after it are run. -/
theorem action_log_runs_what_survives {S : Type} {storage : DdlStorage S} {es : List DdlEvent}
    {t : DdlTxn S} (h : Ran storage es t) :
    (∀ t', DdlTxn.finishCommit storage t = .ok () t' ↔ ∃ s,
      (do ((surviving [] [] es).filterMap LogEntry.commitAction?).forM storage.drop
          storage.commit) t.storage = .ok () s ∧ t' = ⟨t.id, [], s⟩) ∧
    (∀ t', DdlTxn.rollback storage t = .ok () t' ↔ ∃ s,
      (do ((surviving [] [] es).filterMap LogEntry.rollbackAction?).reverse.forM storage.drop
          storage.rollback) t.storage = .ok () s ∧ t' = ⟨t.id, [], s⟩) ∧
    ∀ sp t', DdlTxn.rollbackTo storage sp t = .ok () t' ↔ ∃ before after,
      es = before ++ taken sp :: after ∧ after.all (keeps before) = true ∧ ∃ s,
        (do ((surviving [] (before ++ [taken sp]) after).filterMap
              LogEntry.rollbackAction?).reverse.forM storage.drop
            storage.rollbackTo sp) t.storage = .ok () s ∧
          t' = ⟨t.id, surviving [] [] (es ++ [.rollbackTo sp]), s⟩ := by
  refine ⟨fun t' => ?_, fun t' => ?_, fun sp t' => ?_⟩
  · rw [DdlTxn.finishCommit_eq_ok_iff, ActionLog.runOnCommit_eq, h.log_eq]
  · rw [DdlTxn.rollback_eq_ok_iff, ActionLog.compensate_eq, h.log_eq]
  · simp only [DdlTxn.rollbackTo_eq_ok_iff, ActionLog.compensate_eq, h.log_eq,
      h.positionOf_eq_some_iff]
    constructor
    · rintro ⟨_, ⟨before, after, rfl, hall, rfl⟩, hs⟩
      have hcut := surviving_cut h.distinct.1 hall
      exact ⟨before, after, rfl, hall, by rwa [hcut.1, hcut.2] at hs⟩
    · rintro ⟨before, after, rfl, hall, hs⟩
      have hcut := surviving_cut h.distinct.1 hall
      exact ⟨_, ⟨before, after, rfl, hall, rfl⟩, by rwa [hcut.1, hcut.2]⟩

/-- A storage that writes down the drops it is asked for. -/
def recorder : DdlStorage (List Drop) where
  drop action := modify (· ++ [action])
  savepoint := return 1
  rollbackTo _ := return
  commit := return
  rollback := return

/-- Of two tables created around a savepoint, the return drops the second one and the rollback the
first one. -/
theorem created_tables_are_dropped_once : ∃ es t, Ran recorder es t ∧
    t.storage = [.dropTable 2] ∧
    DdlTxn.rollback recorder t = .ok () ⟨7, [], [.dropTable 2, .dropTable 1]⟩ := by
  have h : Ran recorder _ _ :=
    .savepoint (.onRollback (.dropTable 1) (.start 7 []) rfl) rfl (by simp)
  have h : Ran recorder (_ ++ [.rollbackTo 1]) _ :=
    .rollbackTo (.onRollback (.dropTable 2) h rfl) rfl
  exact ⟨_, _, h, rfl, ((action_log_runs_what_survives h).2.1 _).mpr ⟨_, rfl, rfl⟩⟩

end VaubanDB
