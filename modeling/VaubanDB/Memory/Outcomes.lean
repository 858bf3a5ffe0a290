import VaubanDB.Memory.Linked

/-!
What each call of the engine can do: one lemma per call, with the guards of its branches.

An `insert`, an `update` or a `delete` that fails leaves the state as it found it, and one
that succeeds is one update of the table, its indexes and the log of the transaction
(`Inner.written`).
-/

namespace VaubanDB

open MemoryStorage EStateM OrderedMap TxnState Table List

variable {table : TableId} {id : RowId} {row : Row}

namespace Inner

/-- What the registry knows of a transaction, or would know at its first write. -/
def stateOf (s : Inner) (txn : TxnId) : TxnState := (s.txns.get? txn).getD .inProgress

def written (s : Inner) (txn : TxnId) (table : TableId) (t : Table)
    (planned : List PlannedEntry) (entry : UndoEntry) : Inner :=
  { s with
    tables := s.tables.insert table t
    indexes := applyEntries s.indexes planned
    txns := logWrite s.txns txn (s.stateOf txn) entry }

variable {s : Inner} {txn : TxnId}

lemma table_eq_ok_iff {t : Table} : s.table table = .ok t ↔ s.tables.get? table = some t := by
  rw [Inner.table]
  cases s.tables.get? table <;> simp [bug]

lemma index_eq_ok_iff {index : IndexId} {ix : Index} :
    s.index index = .ok ix ↔ s.indexes.get? index = some ix := by
  rw [Inner.index]
  cases s.indexes.get? index <;> simp [bug]

lemma checkWritable_eq_ok_iff : s.checkWritable txn = .ok () ↔
    (s.stateOf txn).status = .inProgress := by
  rw [checkWritable, stateOf]
  cases s.txns.get? txn with
  | none => simp [inProgress]
  | some state => cases h : state.status <;> simp [isFinished, h, alreadyFinished, bug]

lemma checkArity_eq_ok_iff : s.checkArity table row = .ok () ↔
    ∃ t, s.tables.get? table = some t ∧ row.length = t.arity := by
  rw [checkArity, Except.bind_eq_ok_iff]
  simp only [table_eq_ok_iff]
  refine exists_congr fun t => and_congr_right fun _ => ?_
  by_cases h : row.length = t.arity <;> simp [h, bug]

lemma checkCurrent_eq_ok_iff :
    s.checkCurrent txn table id = .ok () ↔ ∃ t c a, s.tables.get? table = some t ∧
      t.rows.get? id = some (c ++ [a]) ∧ a.xmax = none ∧
        (a.xmin = txn ∨ s.status a.xmin = .committed) := by
  rw [checkCurrent, Except.bind_eq_ok_iff]
  simp only [table_eq_ok_iff]
  refine exists_congr fun t => ?_
  rw [show (∃ c a, s.tables.get? table = some t ∧ t.rows.get? id = some (c ++ [a]) ∧
    a.xmax = none ∧ (a.xmin = txn ∨ s.status a.xmin = .committed)) ↔
      s.tables.get? table = some t ∧ ∃ a, t.latest id = some a ∧ a.xmax = none ∧
        (a.xmin = txn ∨ s.status a.xmin = .committed) from by
    simp only [latest_eq_some_iff]
    constructor
    · rintro ⟨c, a, ht, hc, hrest⟩
      exact ⟨ht, a, ⟨c, hc⟩, hrest⟩
    · rintro ⟨ht, a, ⟨c, hc⟩, hrest⟩
      exact ⟨c, a, ht, hc, hrest⟩]
  refine and_congr_right fun _ => ?_
  cases t.latest id with
  | none => simp [bug]
  | some a =>
    cases hx : a.xmax with
    | some x => simp [bug, hx]
    | none =>
      by_cases hw : a.xmin ≠ txn ∧ s.status a.xmin ≠ .committed
      · simp only [hx, if_pos hw, bug]
        simp [hw.1, hw.2]
      · simp only [hx, if_neg hw, Option.some.injEq, exists_eq_left', true_and, true_iff]
        by_cases hm : a.xmin = txn
        · exact .inl hm
        · exact .inr (by_contra fun hc => hw ⟨hm, hc⟩)

lemma table_uncorrupted (table : TableId) : Uncorrupted (s.table table) := by
  rw [Inner.table]
  split
  · exact .ok _
  · exact .bug _

lemma checkWritable_uncorrupted (txn : TxnId) : Uncorrupted (s.checkWritable txn) := by
  rw [checkWritable]
  split
  · split_ifs
    · exact .bug _
    · exact .ok _
  · exact .ok _

lemma checkArity_uncorrupted (table : TableId) (row : Row) :
    Uncorrupted (s.checkArity table row) := by
  refine (table_uncorrupted table).bind fun t _ => ?_
  split_ifs
  · exact .bug _
  · exact .ok _

lemma checkCurrent_uncorrupted (txn : TxnId) (table : TableId) (id : RowId) :
    Uncorrupted (s.checkCurrent txn table id) := by
  refine (table_uncorrupted table).bind fun t _ => ?_
  split
  · exact .bug _
  · split
    · exact .bug _
    · split_ifs
      · exact .bug _
      · exact .ok _

end Inner

/-! ### Registration -/

lemma writingTxn_of_inProgress {s : Inner} {txn : TxnId}
    (h : (s.stateOf txn).status = .inProgress) :
    writingTxn txn s = .ok () { s with txns := s.txns.insert txn (s.stateOf txn) } := by
  rw [writingTxn, get_bind_apply]
  rcases hs : s.txns.get? txn with _ | state
  · simp [Inner.stateOf, hs]
  rw [Inner.stateOf, hs] at h
  have hstatus : state.status = .inProgress := h
  simp [Inner.stateOf, hs, insert_eq_self hs, isFinished, hstatus]

lemma exists_finished {s : Inner} {txn : TxnId} (h : (s.stateOf txn).status ≠ .inProgress) :
    ∃ state, s.txns.get? txn = some state ∧ state.status ≠ .inProgress := by
  cases hs : s.txns.get? txn with
  | none => simp [Inner.stateOf, hs, inProgress] at h
  | some state => exact ⟨state, rfl, by simpa [Inner.stateOf, hs] using h⟩

lemma writingTxn_of_finished {s : Inner} {txn : TxnId}
    (h : (s.stateOf txn).status ≠ .inProgress) : ∃ msg, writingTxn txn s =
      .error (.internal (.bug msg)) s := by
  obtain ⟨state, hs, hstatus⟩ := exists_finished h
  simp [writingTxn, hs, isFinished, hstatus, Inner.alreadyFinished, bug]

/-! ### Rows -/

lemma logWrite_insert (txns : OrderedMap TxnId TxnState) (txn : TxnId) (state state' : TxnState)
    (entry : UndoEntry) :
    logWrite (txns.insert txn state') txn state entry = logWrite txns txn state entry :=
  insert_insert _ _ _ _

section Rows

variable (s : Inner) (txn : TxnId) (table : TableId) (id : RowId) (row : Row)

lemma insert_outcome : (∃ e, insert txn table row s = .error e s ∧ (e.isCorruption = true → ∃ t r n,
      s.tables.get? table = some t ∧ row.length = t.arity ∧
        s.planEntries txn table row r n none = .error e)) ∨
    ∃ t planned, s.tables.get? table = some t ∧ row.length = t.arity ∧
      (s.stateOf txn).status = .inProgress ∧
      s.planEntries txn table row t.nextRowId t.nextSeq none = .ok planned ∧
      insert txn table row s = .ok t.nextRowId
        (s.written txn table (t.withRow txn row) planned (.insert table t.nextRowId)) := by
  rw [MemoryStorage.insert, get_bind_apply]
  rcases harity : s.checkArity table row with e | _
  · exact .inl ⟨e, rfl, (Inner.checkArity_uncorrupted _ _).elim harity⟩
  obtain ⟨t, ht, hlen⟩ := Inner.checkArity_eq_ok_iff.mp harity
  rw [liftExcept_ok_bind_apply]
  rcases hwritable : s.checkWritable txn with e | _
  · exact .inl ⟨e, rfl, (Inner.checkWritable_uncorrupted _).elim hwritable⟩
  have hstatus := Inner.checkWritable_eq_ok_iff.mp hwritable
  rw [liftExcept_ok_bind_apply, Inner.table_eq_ok_iff.mpr ht, liftExcept_ok_bind_apply]
  simp only [peekRowId, peekSeq]
  rcases hplan : s.planEntries txn table row t.nextRowId t.nextSeq none with e | planned
  · exact .inl ⟨e, rfl, fun _ => ⟨t, _, _, ht, hlen, hplan⟩⟩
  refine .inr ⟨t, planned, ht, hlen, hstatus, hplan, ?_⟩
  rw [liftExcept_ok_bind_apply, bind_of_ok (writingTxn_of_inProgress hstatus), get_bind_apply]
  simp only [ht, get?_insert_self, insert_eq,
    set_bind_apply, ne_eq, not_true_eq_false, if_false]
  simp only [Inner.written, logWrite_insert]
  rfl

lemma update_outcome :
    (∃ e, update txn table id row s = .error e s ∧ (e.isCorruption = true → ∃ t n,
      s.tables.get? table = some t ∧ row.length = t.arity ∧
        s.planEntries txn table row id n (some id) = .error e)) ∨
    ∃ t c a planned, s.tables.get? table = some t ∧ row.length = t.arity ∧
      t.rows.get? id = some (c ++ [a]) ∧ a.xmax = none ∧
      (a.xmin = txn ∨ s.status a.xmin = .committed) ∧ (s.stateOf txn).status = .inProgress ∧
      s.planEntries txn table row id t.nextSeq (some id) = .ok planned ∧
      update txn table id row s = .ok ()
        (s.written txn table (t.withUpdate txn id c a row) planned (.update table id)) := by
  rw [update, get_bind_apply]
  rcases harity : s.checkArity table row with e | _
  · exact .inl ⟨e, rfl, (Inner.checkArity_uncorrupted _ _).elim harity⟩
  obtain ⟨t, ht, hlen⟩ := Inner.checkArity_eq_ok_iff.mp harity
  rw [liftExcept_ok_bind_apply]
  rcases hcurrent : s.checkCurrent txn table id with e | _
  · exact .inl ⟨e, rfl, (Inner.checkCurrent_uncorrupted _ _ _).elim hcurrent⟩
  obtain ⟨t', c, a, ht', hc, hxmax, hxmin⟩ := Inner.checkCurrent_eq_ok_iff.mp hcurrent
  obtain rfl := Option.mem_unique ht ht'
  rw [liftExcept_ok_bind_apply]
  rcases hwritable : s.checkWritable txn with e | _
  · exact .inl ⟨e, rfl, (Inner.checkWritable_uncorrupted _).elim hwritable⟩
  have hstatus := Inner.checkWritable_eq_ok_iff.mp hwritable
  rw [liftExcept_ok_bind_apply, Inner.table_eq_ok_iff.mpr ht, liftExcept_ok_bind_apply]
  simp only [peekSeq]
  rcases hplan : s.planEntries txn table row id t.nextSeq (some id) with e | planned
  · exact .inl ⟨e, rfl, fun _ => ⟨t, _, ht, hlen, hplan⟩⟩
  refine .inr ⟨t, c, a, planned, ht, hlen, hc, hxmax, hxmin, hstatus, hplan, ?_⟩
  rw [liftExcept_ok_bind_apply, bind_of_ok (writingTxn_of_inProgress hstatus),
    get_bind_apply]
  simp only [ht, get?_insert_self, supersede_some hc,
    set_bind_apply, Bool.not_true, Bool.false_eq_true, if_false]
  simp only [Inner.written, logWrite_insert]
  rfl

lemma delete_outcome : (∃ e, delete txn table id s = .error e s ∧ e.isCorruption = false) ∨
    ∃ t c a, s.tables.get? table = some t ∧ t.rows.get? id = some (c ++ [a]) ∧ a.xmax = none ∧
      (a.xmin = txn ∨ s.status a.xmin = .committed) ∧ (s.stateOf txn).status = .inProgress ∧
      delete txn table id s = .ok ()
        (s.written txn table (t.withChain id (c ++ [{ a with xmax := some txn }])) []
          (.delete table id)) := by
  rw [delete, get_bind_apply]
  rcases hcurrent : s.checkCurrent txn table id with e | _
  · exact .inl ⟨e, rfl, Inner.checkCurrent_uncorrupted _ _ _ e hcurrent⟩
  obtain ⟨t, c, a, ht, hc, hxmax, hxmin⟩ := Inner.checkCurrent_eq_ok_iff.mp hcurrent
  rw [liftExcept_ok_bind_apply]
  by_cases hstatus : (s.stateOf txn).status = .inProgress
  · refine .inr ⟨t, c, a, ht, hc, hxmax, hxmin, hstatus, ?_⟩
    rw [bind_of_ok (writingTxn_of_inProgress hstatus), get_bind_apply]
    simp only [ht, get?_insert_self, supersede_none hc,
      set_bind_apply, Bool.not_true, Bool.false_eq_true, if_false]
    simp only [Inner.written, logWrite_insert, applyEntries, foldl_nil]
    rfl
  · obtain ⟨msg, hw⟩ := writingTxn_of_finished hstatus
    exact .inl ⟨_, bind_of_error hw, rfl⟩

end Rows

/-! ### Transactions -/

section Transactions

variable {s : Inner} {txn : TxnId}

lemma finishTxn_of_inProgress (h : (s.stateOf txn).status = .inProgress) (status : TxnStatus) :
    finishTxn txn status s = .ok (s.stateOf txn).writes
      { s with txns := s.txns.insert txn (.finished status) } := by
  rw [finishTxn, get_bind_apply]
  rcases hs : s.txns.get? txn with _ | state
  · simp [Inner.stateOf, hs, inProgress]
  rw [Inner.stateOf, hs] at h
  have hstatus : state.status = .inProgress := h
  simp [Inner.stateOf, hs, isFinished, hstatus]

lemma finish_outcome (s : Inner) (txn : TxnId) (status : TxnStatus)
    (k : List UndoEntry → Engine Unit) :
    (∃ msg, (finishTxn txn status >>= k) s = .error (.internal (.bug msg)) s ∧
      (s.stateOf txn).status ≠ .inProgress) ∨
    ((s.stateOf txn).status = .inProgress ∧ (finishTxn txn status >>= k) s =
      k (s.stateOf txn).writes { s with txns := s.txns.insert txn (.finished status) }) := by
  by_cases h : (s.stateOf txn).status = .inProgress
  · exact .inr ⟨h, bind_of_ok (finishTxn_of_inProgress h status)⟩
  · obtain ⟨msg, hf⟩ : ∃ msg, finishTxn txn status s = .error (.internal (.bug msg)) s := by
      obtain ⟨state, hs, hstatus⟩ := exists_finished h
      simp [finishTxn, hs, isFinished, hstatus, Inner.alreadyFinished, bug]
    exact .inl ⟨msg, bind_of_error hf, h⟩

lemma commit_outcome (s : Inner) (txn : TxnId) :
    (∃ msg, commit txn s = .error (.internal (.bug msg)) s ∧ (s.stateOf txn).status ≠ .inProgress) ∨
    ((s.stateOf txn).status = .inProgress ∧ commit txn s = .ok ()
      { s with txns := s.txns.insert txn (.finished .committed) }) :=
  finish_outcome s txn .committed _

lemma rollback_outcome (s : Inner) (txn : TxnId) :
    (∃ msg, rollback txn s = .error (.internal (.bug msg)) s ∧
      (s.stateOf txn).status ≠ .inProgress) ∨
    ((s.stateOf txn).status = .inProgress ∧ rollback txn s = undoAll txn (s.stateOf txn).writes
        { s with txns := s.txns.insert txn (.finished .aborted) }) :=
  finish_outcome s txn .aborted _

lemma savepoint_of_finished (h : (s.stateOf txn).status ≠ .inProgress) :
    ∃ msg, savepoint txn s = .error (.internal (.bug msg)) s := by
  obtain ⟨msg, hw⟩ := writingTxn_of_finished h
  exact ⟨msg, bind_of_error hw⟩

lemma savepoint_outcome (h : (s.stateOf txn).status = .inProgress) :
    (∃ msg, savepoint txn s = .error (.internal (.bug msg))
      { s with txns := s.txns.insert txn (s.stateOf txn) }) ∨
    savepoint txn s = .ok s.nextSavepointId { s with
      nextSavepointId := s.nextSavepointId + 1
      txns := s.txns.insert txn { s.stateOf txn with savepoints := (s.stateOf txn).savepoints ++
        [(s.nextSavepointId, (s.stateOf txn).writes.length)] } } := by
  rw [savepoint, bind_of_ok (writingTxn_of_inProgress h), get_bind_apply]
  by_cases hid : s.nextSavepointId + 1 < 2 ^ 64
  · right
    simp only [nextId, if_pos hid, liftExcept_ok_bind_apply, set_bind_apply, get?_insert_self]
    simp only [insert_insert]
    rfl
  · left
    simp only [nextId, if_neg hid, bug]
    exact ⟨_, rfl⟩

lemma rollbackTo_outcome (sp : SavepointId) : (∃ e, rollbackTo txn sp s = .error e s ∧
      (e.isCorruption = true → ∃ state p, s.txns.get? txn = some state ∧
        p ∈ state.savepoints ∧ state.writes.length < p.2)) ∨
    ∃ state pos mark, s.txns.get? txn = some state ∧ state.status = .inProgress ∧
      state.savepoints[pos]? = some (sp, mark) ∧ mark ≤ state.writes.length ∧
      rollbackTo txn sp s = undoAll txn (state.writes.drop mark)
        { s with txns := s.txns.insert txn { state with
          savepoints := state.savepoints.take (pos + 1)
          writes := state.writes.take mark } } := by
  rw [rollbackTo, get_bind_apply]
  rcases hs : s.txns.get? txn with _ | state
  · exact .inl ⟨_, rfl, fun h => by cases h⟩
  cases hf : state.isFinished with
  | true =>
    simp only [hf, if_true, Inner.alreadyFinished, bug]
    exact .inl ⟨_, rfl, fun h => by cases h⟩
  | false =>
    have hstatus : state.status = .inProgress := by simpa [isFinished] using hf
    cases hpos : state.savepoints.findIdx? fun p => p.1 == sp with
    | none =>
      simp only [hf, Bool.false_eq_true, if_false, hpos, bug]
      exact .inl ⟨_, rfl, fun h => by cases h⟩
    | some pos =>
      obtain ⟨hlt, hsp, _⟩ := findIdx?_eq_some_iff_getElem.mp hpos
      have hget := getElem?_eq_getElem hlt
      have heq : (state.savepoints[pos]).1 = sp := by simpa using hsp
      simp only [hf, Bool.false_eq_true, if_false, hpos, hget, Option.map_some, Option.getD_some]
      by_cases hmark : (state.savepoints[pos]).2 > state.writes.length
      · left
        simp only [if_pos hmark, corruption]
        exact ⟨_, rfl, fun _ => ⟨state, _, rfl, getElem_mem hlt, hmark⟩⟩
      · right
        refine ⟨state, pos, (state.savepoints[pos]).2, rfl, hstatus, ?_, by omega, ?_⟩
        · rw [hget, ← heq]
        · rw [if_neg hmark]
          rfl

end Transactions

/-! ### Planned entries -/

variable {s : Inner} {txn : TxnId} {t : Table} {planned : List PlannedEntry} {entry : UndoEntry}

/-- What `planEntries` has checked about one index. -/
structure PlannedFor (s : Inner) (txn : TxnId) (t : Table) (row : Row) (id : RowId) (seq : ℕ)
    (replacing : Option RowId) (i : IndexId) (ix : Index) (key : List Value) (pos : ℕ) :
    Prop where
  index_eq : s.indexes.get? i = some ix
  key_eq : ix.order.extract row = .ok key
  pos_eq : ix.positionFor key id seq = .ok pos
  noDuplicate : ix.shape.unique = true →
    ix.hasLiveDuplicate key t.rows (some txn) s.status replacing = .ok false

variable {replacing : Option RowId} {p : PlannedEntry}

lemma planEntry_eq_ok {seq : ℕ} {i : IndexId}
    (h : s.planEntry txn table t row id seq replacing i = .ok p) :
    ∃ ix key pos, PlannedFor s txn t row id seq replacing i ix key pos ∧
      p = (i, pos, ⟨key, id, seq⟩) := by
  rw [Inner.planEntry] at h
  rcases hix : s.indexes.get? i with _ | ix
  · simp [hix, corruption] at h
  simp only [hix] at h
  obtain ⟨key, hkey, h⟩ := Except.bind_eq_ok_iff.mp h
  obtain ⟨duplicate, hdup, h⟩ := Except.bind_eq_ok_iff.mp h
  cases duplicate with
  | true => simp at h
  | false =>
    simp only [Bool.false_eq_true, if_false] at h
    obtain ⟨pos, hpos, h⟩ := Except.bind_eq_ok_iff.mp h
    cases h
    refine ⟨ix, key, pos, ⟨hix, hkey, hpos, fun hu => ?_⟩, rfl⟩
    rwa [Inner.isDuplicate, if_pos hu] at hdup

lemma applyEntries_get?_of_notMem {i : IndexId} (h : ∀ p ∈ planned, p.1 ≠ i)
    (indexes : OrderedMap IndexId Index) :
    (applyEntries indexes planned).get? i = indexes.get? i := by
  induction planned generalizing indexes with
  | nil => rfl
  | cons p planned ih =>
    rw [applyEntries, foldl_cons]
    refine (ih (fun q hq => h q (by simp [hq])) _).trans ?_
    exact get?_modify_ne _ _ (Ne.symm (h p (by simp)))

lemma applyEntries_get?_of_mem (hp : p ∈ planned)
    (hnodup : (planned.map Prod.fst).Nodup) (indexes : OrderedMap IndexId Index) :
    (applyEntries indexes planned).get? p.1 = (indexes.get? p.1).map fun ix =>
      { ix with entries := ix.entries.insertIdx (min p.2.1 ix.entries.length) p.2.2 } := by
  induction planned generalizing indexes with
  | nil => cases hp
  | cons q planned ih =>
    rw [map_cons, nodup_cons] at hnodup
    rw [applyEntries, foldl_cons]
    rcases mem_cons.mp hp with rfl | hp
    · refine (applyEntries_get?_of_notMem ?_ _).trans (get?_modify_self _ _ _)
      intro r hr hr'
      exact hnodup.1 (hr' ▸ mem_map_of_mem hr)
    · refine (ih hp hnodup.2 _).trans ?_
      rw [get?_modify_ne]
      rintro heq
      exact hnodup.1 (heq ▸ mem_map_of_mem hp)

lemma planEntries_spec {seq : ℕ} (ht : s.tables.get? table = some t)
    (h : s.planEntries txn table row id seq replacing = .ok planned) :
    (∀ i, i ∉ t.indexes.keys → (applyEntries s.indexes planned).get? i = s.indexes.get? i) ∧
    ∀ i ∈ t.indexes.keys, ∃ ix key pos, PlannedFor s txn t row id seq replacing i ix key pos ∧
      (applyEntries s.indexes planned).get? i = some { ix with
        entries := ix.entries.insertIdx (min pos ix.entries.length) ⟨key, id, seq⟩ } := by
  obtain ⟨t', ht', hmap⟩ := Except.bind_eq_ok_iff.mp h
  obtain rfl := Option.mem_unique ht (Inner.table_eq_ok_iff.mp ht')
  have hall := Except.mapM_eq_ok_iff.mp hmap
  have hkeys : planned.map Prod.fst = t.indexes.keys := by
    clear h hmap
    generalize t.indexes.keys = ids at hall
    induction hall with
    | nil => rfl
    | cons hp _ ih =>
      obtain ⟨_, _, _, _, rfl⟩ := planEntry_eq_ok hp
      rw [map_cons, ih]
  refine ⟨fun i hi => applyEntries_get?_of_notMem ?_ _, fun i hi => ?_⟩
  · intro p hp heq
    exact hi (hkeys ▸ heq ▸ mem_map_of_mem hp)
  · obtain ⟨p, hp, rfl⟩ := mem_map.mp (hkeys ▸ hi)
    obtain ⟨j, _, hj⟩ := hall.exists_of_mem_right hp
    obtain ⟨ix, key, pos, hplan, rfl⟩ := planEntry_eq_ok hj
    refine ⟨ix, key, pos, hplan, ?_⟩
    rw [applyEntries_get?_of_mem hp (hkeys ▸ keys_nodup _), hplan.index_eq]
    rfl

/-! ### Undo -/

/-- What undoing one write does to its table; `none` when the chain does not end with it. -/
def undoTable (txn : TxnId) (t : Table) : UndoEntry → Option (List (RowId × Version) × Table)
  | .insert _ r => some (((t.rows.get? r).getD []).map fun v => (r, v), (t.removeRow r).2)
  | .update _ r => (t.undoUpdate txn r).map fun p => ([(r, p.1)], p.2)
  | .delete _ r => (t.undoDelete txn r).map fun t' => ([], t')

inductive TookBack (txn : TxnId) (t : Table) : UndoEntry → List (RowId × Version) → Table → Prop
  | insert (T : TableId) (r : RowId) : TookBack txn t (.insert T r)
      (((t.rows.get? r).getD []).map fun v => (r, v)) (t.removeRow r).2
  | update {T : TableId} {r : RowId} {c : List Version} {a b : Version}
      (hc : t.rows.get? r = some (c ++ [a, b])) (ha : a.xmax = some txn) (hb : b.xmin = txn) :
      TookBack txn t (.update T r) [(r, b)] (t.withChain r (c ++ [{ a with xmax := none }]))
  | delete {T : TableId} {r : RowId} {c : List Version} {a : Version}
      (hc : t.rows.get? r = some (c ++ [a])) (ha : a.xmax = some txn) :
      TookBack txn t (.delete T r) [] (t.withChain r (c ++ [{ a with xmax := none }]))

lemma undoTable_cases {t' : Table} {removed : List (RowId × Version)}
    (h : undoTable txn t entry = some (removed, t')) : TookBack txn t entry removed t' := by
  cases entry <;> simp only [undoTable, Option.some.injEq, Option.map_eq_some_iff, Prod.mk.injEq,
    Prod.exists] at h
  case insert T r =>
    obtain ⟨rfl, rfl⟩ := h
    exact .insert T r
  case update T r =>
    obtain ⟨b, _, hu, rfl, rfl⟩ := h
    obtain ⟨c, a, hc, ha, hb, _, rfl⟩ := undoUpdate_eq_some_iff.mp hu
    exact .update hc ha hb
  case delete T r =>
    obtain ⟨_, hu, rfl, rfl⟩ := h
    obtain ⟨c, a, hc, ha, rfl⟩ := undoDelete_eq_some_iff.mp hu
    exact .delete hc ha

lemma removeFromIndexes_nil (ids : List IndexId) (s : Inner) :
    removeFromIndexes ids [] s = .ok () s := by
  induction ids with
  | nil => rfl
  | cons i ids ih => exact ih

lemma undo_of_some {t' : Table} {removed : List (RowId × Version)}
    (ht : s.tables.get? entry.table = some t) (h : undoTable txn t entry = some (removed, t')) :
    t'.indexes = t.indexes ∧ undo txn entry s =
      removeFromIndexes t.indexes.keys removed
        { s with tables := s.tables.insert entry.table t' } := by
  have hix : t'.indexes = t.indexes := by cases undoTable_cases h <;> rfl
  refine ⟨hix, ?_⟩
  rw [← hix]
  cases entry <;> simp only [UndoEntry.table] at ht <;>
    simp only [undoTable, Option.some.injEq, Option.map_eq_some_iff, Prod.mk.injEq,
      Prod.exists] at h
  case insert T r =>
    obtain ⟨rfl, rfl⟩ := h
    rw [undo, get_bind_apply]
    simp only [ht, removeRow, set_bind_apply]
    cases hc : t.rows.get? r with
    | none => exact (removeFromIndexes_nil _ _).symm
    | some c =>
      simp only [removeEntries, get_bind_apply, get?_insert_self]
      rfl
  case update T r =>
    obtain ⟨b, t₁, hu, rfl, rfl⟩ := h
    rw [undo, get_bind_apply]
    simp only [ht, hu, set_bind_apply, removeEntries, get_bind_apply, get?_insert_self]
    rfl
  case delete T r =>
    obtain ⟨t₁, hu, rfl, rfl⟩ := h
    rw [undo, get_bind_apply]
    simp only [ht, hu, set_apply]
    exact (removeFromIndexes_nil _ _).symm

lemma undo_of_dropped (ht : s.tables.get? entry.table = none) : undo txn entry s = .ok () s := by
  cases entry <;> simp only [UndoEntry.table] at ht <;> simp [undo, ht]

/-- The undo of a write changes nothing, as when the table was dropped since or the chain does not
end with the write, or takes its versions away. -/
lemma undo_rule (P : Inner → Prop) (h : P s)
    (hsome : ∀ t removed t', s.tables.get? entry.table = some t →
      undoTable txn t entry = some (removed, t') → P (removeFromIndexes t.indexes.keys removed
        { s with tables := s.tables.insert entry.table t' }).state) :
    P (undo txn entry s).state := by
  rcases ht : s.tables.get? entry.table with _ | t
  · rwa [undo_of_dropped ht]
  cases hu : undoTable txn t entry with
  | some p =>
    rw [(undo_of_some ht hu).2]
    exact hsome t p.1 p.2 ht hu
  | none =>
    cases entry with
    | insert T r => cases hu
    | update T r | delete T r =>
      simp only [UndoEntry.table] at ht
      simp only [undoTable, Option.map_eq_none_iff] at hu
      simp only [undo, get_bind_apply, ht, hu]
      exact h

lemma removeFromIndexes_frame (ids : List IndexId) (removed : List (RowId × Version))
    (s : Inner) : (removeFromIndexes ids removed s).state
      = { s with indexes := (removeFromIndexes ids removed s).state.indexes } := by
  have hone : ∀ i item, Preserves (fun s' => s' = { s with indexes := s'.indexes })
      (removeEntry i item) := by
    intro i item s' hs'
    rw [removeEntry, get_bind_apply]
    cases s'.indexes.get? i with
    | none => exact hs'
    | some ix =>
      simp only
      cases ix.removeVersion item.1 item.2 with
      | error e => exact hs'
      | ok ix' =>
        rw [liftExcept_ok_bind_apply, set_apply]
        rw [hs']
        rfl
  exact Preserves.forM (fun i _ => .forM fun item _ => hone i item) s rfl

/-! ### Vacuum -/

lemma vacuumTable_eq {T : TableId} (ht : s.tables.get? T = some t) (horizon : TxnId)
    (status : TxnId → TxnStatus) :
    vacuumTable horizon status T s = removeFromIndexes t.indexes.keys (t.vacuum horizon status).1
      { s with tables := s.tables.insert T (t.vacuum horizon status).2 } := by
  rw [vacuumTable, get_bind_apply]
  simp only [ht]
  rfl

lemma vacuumTable_of_none {T : TableId} (ht : s.tables.get? T = none) (horizon : TxnId)
    (status : TxnId → TxnStatus) : vacuumTable horizon status T s = .ok () s := by
  rw [vacuumTable, get_bind_apply]
  simp only [ht]
  rfl

/-- The loop of a vacuum over the tables, also when it stops early: the first tables have been
vacuumed, the others not. -/
lemma vacuumLoop_outcome (horizon : TxnId) (status : TxnId → TxnStatus) (ids : List TableId)
    (hnodup : ids.Nodup) (s : Inner) :
    ∃ done s', done.Sublist ids ∧ (ids.forM (vacuumTable horizon status) s).state = s' ∧
      (∀ T, s'.tables.get? T = (s.tables.get? T).map fun t =>
        if T ∈ done then (t.vacuum horizon status).2 else t) ∧
      s' = { s with tables := s'.tables, indexes := s'.indexes } ∧
      (ids.forM (vacuumTable horizon status) s = .ok () s' → done = ids) := by
  induction ids generalizing s with
  | nil => exact ⟨[], s, .slnil, rfl, fun T => by simp, rfl, fun _ => rfl⟩
  | cons T ids ih =>
    rw [nodup_cons] at hnodup
    obtain ⟨hT, hnodup⟩ := hnodup
    -- what the first table leaves, whether its indexes are cleaned or not
    have hfirst : ∀ T', (vacuumTable horizon status T s).state.tables.get? T'
        = (s.tables.get? T').map fun t => if T' = T then (t.vacuum horizon status).2 else t := by
      intro T'
      cases ht : s.tables.get? T with
      | none =>
        rw [vacuumTable_of_none ht]
        by_cases hTT : T' = T
        · subst hTT
          simp [Result.state, ht]
        · simp [Result.state, hTT]
      | some t =>
        rw [vacuumTable_eq ht, removeFromIndexes_frame]
        simp only [get?_insert]
        split_ifs with hTT
        · subst hTT
          simp [ht]
        · simp
    have hframe : (vacuumTable horizon status T s).state = { s with
        tables := (vacuumTable horizon status T s).state.tables
        indexes := (vacuumTable horizon status T s).state.indexes } := by
      cases ht : s.tables.get? T with
      | none => rw [vacuumTable_of_none ht]; rfl
      | some t => rw [vacuumTable_eq ht, removeFromIndexes_frame]
    cases hres : vacuumTable horizon status T s with
    | error e s₁ =>
      rw [hres] at hfirst hframe
      have heq : (T :: ids).forM (vacuumTable horizon status) s = .error e s₁ := bind_of_error hres
      refine ⟨[T], s₁, by simp, by rw [heq]; rfl, ?_, hframe, fun h => ?_⟩
      · intro T'
        rw [show s₁ = Result.state (.error e s₁ : Result SqlError Inner Unit) from rfl, hfirst T']
        simp only [mem_singleton]
      · cases heq.symm.trans h
    | ok _ s₁ =>
      rw [hres] at hfirst hframe
      have heq : (T :: ids).forM (vacuumTable horizon status) s
          = ids.forM (vacuumTable horizon status) s₁ := bind_of_ok hres
      obtain ⟨done, s', hsub, hs', htables, hframe', hok⟩ := ih hnodup s₁
      refine ⟨T :: done, s', hsub.cons_cons T, by rw [heq, hs'], ?_, ?_, fun h => ?_⟩
      · intro T'
        have h1 : s₁.tables.get? T' = _ := hfirst T'
        rw [htables T', h1, Option.map_map]
        congr 1
        funext t
        by_cases hTT : T' = T
        · subst hTT
          have : T' ∉ done := fun hm => hT (hsub.subset hm)
          simp [this]
        · simp [hTT]
      · have h1 : s₁ = _ := hframe
        rw [hframe', h1]
      · rw [heq] at h
        rw [hok h]

end VaubanDB
