import VaubanDB.Memory.Healthy

/-!
The integrity of the in-memory engine along its runs: every index mirrors its table, the writes of a
transaction in progress end the chains it touched, and no call reports a corruption.

It holds in the runs that put no value into a key that does not compare equal to itself, a float NaN
or a decimal whose scale overflows: an index can neither find nor remove such a value.
-/

namespace VaubanDB

open MemoryStorage

/-- The index has one entry for each stored version, increasing by key, row and serial number. -/
structure Index.Mirrors (ix : Index) (t : Table) : Prop where
  sorted : ix.entries.Pairwise (EntryLt ix.order)
  entry : ∀ r v, Stored t.rows r v →
    ∃! e, e ∈ ix.entries ∧ e.row = r ∧ e.version = v.seq
  version : ∀ e ∈ ix.entries, ∃ v, Stored t.rows e.row v ∧ v.seq = e.version ∧
    ix.order.extract v.data = .ok e.key

/-- The chains end with the writes of `x`, and the rows it wrote are still there. -/
structure Inner.EndsWith (s : Inner) (x : TxnId) : Prop where
  tail : ∀ T t r c, s.tables.get? T = some t → t.rows.get? r = some c →
    ∃ birth death, Tail x birth death (onRow T r (s.logs x)) c
  present : ∀ e ∈ s.logs x, ∀ t, s.tables.get? e.table = some t →
    ∃ c, t.rows.get? e.row = some c

/-- The value can be compared with itself. -/
abbrev Call.Comparable (s : Inner) (c : Call) : Prop := c.Keyed (fun _ v => v.selfComparable) s

lemma Exact.mirrors {ok : Column → Value → Bool} {status : TxnId → TxnStatus} {t : Table}
    {ix : Index} (h : Exact ok t ix) (hl : Linked status t ix) (hwf : t.WellFormed) :
    ix.Mirrors t where
  sorted := hl.sorted.pairwise
  entry := by
    intro r v hv
    obtain ⟨key, hkey⟩ := hl.extract_isOk (hwf.arity_eq r v hv)
    have he : ⟨key, r, v.seq⟩ ∈ ix.entries := (h.lists _).mpr ⟨v.data, ⟨v, hv, rfl, rfl⟩, hkey⟩
    refine ⟨⟨key, r, v.seq⟩, ⟨he, rfl, rfl⟩, ?_⟩
    rintro f ⟨hf, hrow, hversion⟩
    exact (hl.entry_eq he hf hrow.symm hversion.symm hv rfl).symm
  version := by
    intro e he
    obtain ⟨data, ⟨v, hv, hseq, rfl⟩, hkey⟩ := (h.lists e).mp he
    exact ⟨v, hv, hseq, hkey⟩

/-- In every run whose key values compare equal to themselves, every index mirrors its table,
the chains end with the writes of the transactions in progress, and no call reports a
corruption. -/
theorem comparable_runs_keep_integrity {σ : Site} (h : σ.Reachable Call.Comparable) :
    (∀ T t i ix, σ.inner.tables.get? T = some t → i ∈ t.indexes.keys →
      σ.inner.indexes.get? i = some ix → ix.Mirrors t) ∧
    (∀ x, σ.inner.status x = .inProgress → σ.inner.EndsWith x) ∧
    (∀ c : Call, (∀ t, c.txn? = some t → t ∉ σ.history.ended) → c.Comparable σ.inner →
      ¬ c.Corrupted σ.inner) := by
  have hok : ∀ (c : Column) (v : Value), v.selfComparable = true → v.selfComparable = true :=
    fun _ _ h => h
  have htracked := h.tracked hok fun _ _ hc => hc
  obtain ⟨m, hp⟩ := htracked.precise
  refine ⟨?_, ?_, ?_⟩
  · intro T t i ix ht hi hix
    exact (hp.exact T t i ix ht hi hix).mirrors (htracked.rows.linked T t i ix ht hi hix)
      (htracked.rows.wellFormed T t ht)
  · intro x hx
    have hcommitted : x ∉ σ.history.committed := by
      intro hmem
      have := htracked.registry.ledger.status_of_committed hmem
      rw [Inner.status, this] at hx
      cases hx
    exact ⟨fun T t r c ht hc => ⟨_, _, hp.tails x hcommitted T t r c ht hc⟩, hp.row_exists x⟩
  · rintro c hlive _ ⟨e, s', he, hcorrupt⟩
    rw [Call.sane_of_tracked hok htracked c hlive e s' he] at hcorrupt
    cases hcorrupt

/-! ### A run that is not one of these -/

variable {rest : List Call}

namespace Site

/-- The calls may follow one another from `σ`. -/
def Runs (allowed : Inner → Call → Prop) (σ : Site) : List Call → Prop
  | [] => True
  | c :: cs => (∀ t, c.txn? = some t → t ∉ σ.history.ended) ∧ allowed σ.inner c ∧
      Runs allowed (σ.after c) cs

def run (σ : Site) (calls : List Call) : Site := calls.foldl Site.after σ

variable {allowed : Inner → Call → Prop} {calls : List Call}

lemma Reachable.run {σ : Site} (h : σ.Reachable allowed)
    (hcalls : σ.Runs allowed calls) : (σ.run calls).Reachable allowed := by
  induction calls generalizing σ with
  | nil => exact h
  | cons c cs ih => exact ih (h.tail (.call c hcalls.1 hcalls.2.1)) hcalls.2.2

lemma Runs.of_append {σ : Site} (h : σ.Runs allowed (calls ++ rest)) : σ.Runs allowed calls := by
  induction calls generalizing σ with
  | nil => trivial
  | cons c cs ih => exact ⟨h.1, h.2.1, ih h.2.2⟩

end Site

/-- One float column, and an index on it. -/
def floatTable : List Call :=
  [.createDatabase "d", .createTable 1 ⟨[⟨.float, true, none⟩], none⟩,
    .createIndex 1 ⟨[⟨0, false⟩], false, []⟩]

def nan : Value := .f64 0x7FF8000000000000#64

/-- A transaction inserts a value into the indexed column and rolls back. -/
def insertAndRollback (v : Value) : List Call :=
  floatTable ++ [.insert 1 1 [v], .rollback 1]

/-- The undo of the insert stops at the key: the row is gone, its entry is not, and a read of
the index reports a corruption. -/
theorem nan_rollback_leaves_an_entry :
    (Site.initial.run (insertAndRollback nan)).Reachable (fun _ _ => True) ∧
    ((Site.initial.run (insertAndRollback nan)).inner.indexes.get? 1).map Index.entries =
      some [⟨[nan], 1, 1⟩] ∧
    ((Site.initial.run (insertAndRollback nan)).inner.tables.get? 1).map Table.rows =
      some .empty ∧
    (Call.seek ⟨2, 2, [], 9⟩ 1 .full .forward).Corrupted
      (Site.initial.run (insertAndRollback nan)).inner := by
  refine ⟨Site.Reachable.run .refl ?_, by decide +kernel, by decide +kernel, ⟨_, _, rfl, rfl⟩⟩
  simp [Site.Runs, insertAndRollback, floatTable, Site.after, History.after, Call.txn?,
    Site.initial, History.empty]

lemma insertAndRollback_comparable :
    Site.initial.Runs Call.Comparable (insertAndRollback (.f64 0)) := by
  have hended : (Site.initial.run floatTable).history.ended = ∅ := rfl
  refine ⟨nofun, trivial, nofun, trivial, nofun, ?_, fun t _ => hended ▸ id, ?_,
    fun t _ => hended ▸ id, trivial, trivial⟩
  · rintro t order ht _ r v ⟨c, hc, _⟩
    cases ht
    cases hc
  · rintro t i ix ht hi hix c hc v hv
    cases ht
    cases List.mem_singleton.mp hi
    cases hix
    cases List.mem_singleton.mp hc
    cases hv
    decide

/-- **Whatever the calls**, the catalogue refers to what exists, the tables are well formed and the
indexes describe them, and the registry, the version chains and the history agree. -/
theorem storage_stays_sound {allowed : Inner → Call → Prop} {σ : Site} (h : σ.Reachable allowed) :
    Catalog σ.inner ∧ Rows σ.inner ∧ Registry σ.inner σ.history :=
  ⟨h.sound.1, h.sound.2, h.registry⟩

/-- A table with an index, a row inserted and rolled back. -/
theorem zero_rollback_stays_sound :
    Catalog (Site.initial.run (insertAndRollback (.f64 0))).inner ∧
    Rows (Site.initial.run (insertAndRollback (.f64 0))).inner ∧
    Registry (Site.initial.run (insertAndRollback (.f64 0))).inner
      (Site.initial.run (insertAndRollback (.f64 0))).history :=
  storage_stays_sound (.run .refl insertAndRollback_comparable)

/-- The same run with a value that can be compared. -/
theorem zero_rollback_keeps_integrity :
    (Site.initial.run (insertAndRollback (.f64 0))).Reachable Call.Comparable ∧
    ¬ (Call.seek ⟨2, 2, [], 9⟩ 1 .full .forward).Corrupted
      (Site.initial.run (insertAndRollback (.f64 0))).inner := by
  have h : (Site.initial.run (insertAndRollback (.f64 0))).Reachable Call.Comparable :=
    Site.Reachable.run .refl insertAndRollback_comparable
  exact ⟨h, (comparable_runs_keep_integrity h).2.2 _ nofun trivial⟩

end VaubanDB
