import VaubanDB.Memory.Integrity

/-!
What a rollback and a vacuum leave, said in one step.

`Inner.erase keep fix` is the store without the versions `keep` rejects and without their index
entries, the other versions changed by `fix`.  A change that rewrites every chain that way, and
nothing else (`Rewritten`), has no choice left: where the indexes are exact, the state after it
is the erasure (`Rewritten.eq_erase`).

* `rollback_erases`: a rollback drops what its transaction created, takes back its deletes, and
  changes nothing else.
* `vacuum_after_vacuum`: two vacuums are one vacuum with the larger horizon.
-/

namespace VaubanDB

open EStateM
open Option (bind_some any_some map_some map_none)
open MemoryStorage Table MemoryStorage OrderedMap List

/-! ### Erasure -/

def Inner.versionOf (s : Inner) (T : TableId) (e : IndexEntry) : Option Version :=
  (s.tables.get? T).bind fun t => findVersion t.rows e.row e.version

def Inner.entriesOf (s : Inner) (p : Version → Bool) (ix : Index) : List IndexEntry :=
  ix.entries.filter fun e => (s.versionOf ix.table e).any p

/-- The store without the versions `keep` rejects, their entries and the rows left empty; `fix`
changes the others. -/
def Inner.erase (keep : Version → Bool) (fix : Version → Version) (s : Inner) : Inner :=
  { s with
    tables := s.tables.mapVals fun _ t => { t with
      rows := (t.rows.mapVals fun _ c => (c.filter keep).map fix).filter fun _ c => !c.isEmpty }
    indexes := s.indexes.mapVals fun _ ix => { ix with
      entries := ix.entries.filter fun e => !(s.versionOf ix.table e).any fun v => !keep v } }

/-- Every chain has been rewritten by `f`; the entries of the indexes and the registry may differ.
-/
structure Rewritten (f : List Version → List Version) (s s' : Inner) : Prop where
  rest : s' = { s with tables := s'.tables, indexes := s'.indexes, txns := s'.txns }
  tables : ∀ T, (s'.tables.get? T).map frame = (s.tables.get? T).map frame
  indexes : ∀ i, (s'.indexes.get? i).map Index.header = (s.indexes.get? i).map Index.header
  chains : ∀ T r, s'.chainOf T r = f (s.chainOf T r)

variable {t : Table}

lemma Table.eq_of_frame {t' : Table} (h : t'.frame = t.frame) :
    t' = { t with rows := t'.rows } := by
  cases t
  cases t'
  simpa [frame] using h

lemma Table.WellFormed.get?_eq (h : t.WellFormed) (r : RowId) :
    t.rows.get? r = (some (t.chainOf r)).filter (!·.isEmpty) := by
  rw [chainOf]
  cases hc : t.rows.get? r with
  | none => rfl
  | some c => rw [Option.getD_some, Option.filter_some, if_pos (by simpa using h.chain_ne r c hc)]

section Tracked

variable {ok : Column → Value → Bool} {σ σ' : Site} {p : Version → Bool} {i : IndexId} {ix : Index}

lemma Tracked.mem_entriesOf_iff (h : Tracked ok σ)
    (hix : σ.inner.indexes.get? i = some ix) {e : IndexEntry} : e ∈ σ.inner.entriesOf p ix ↔
      ∃ k ∈ ((σ.inner.chainOf ix.table e.row).filter p).map Version.core,
        k.1 = e.version ∧ ix.order.extract k.2.1 = .ok e.key := by
  obtain ⟨t, ht, hi⟩ := h.catalog.owned i ix hix
  obtain ⟨m, hp⟩ := h.precise
  have hwf := h.rows.wellFormed _ t ht
  rw [Inner.entriesOf, mem_filter, (hp.exact _ t i ix ht hi hix).lists e, Inner.versionOf, ht,
    bind_some, Inner.chainOf_eq ht]
  constructor
  · rintro ⟨⟨_, ⟨v, hv, hseq, rfl⟩, hkey⟩, hany⟩
    rw [← hseq, hwf.findVersion_eq hv] at hany
    exact ⟨v.core, mem_map_of_mem (mem_filter.mpr ⟨mem_chainOf_iff.mpr hv, hany⟩), hseq, hkey⟩
  · rintro ⟨_, hk, hseq, hkey⟩
    obtain ⟨v, hv, rfl⟩ := mem_map.mp hk
    obtain ⟨hv, hpv⟩ := mem_filter.mp hv
    rw [mem_chainOf_iff] at hv
    refine ⟨⟨v.data, ⟨v, hv, hseq, rfl⟩, hkey⟩, ?_⟩
    rw [← hseq, show v.core.1 = v.seq from rfl, hwf.findVersion_eq hv]
    exact hpv

lemma Tracked.entriesOf_eq (h : Tracked ok σ) (h' : Tracked ok σ') {p' : Version → Bool}
    (hchains : ∀ T r, ((σ'.inner.chainOf T r).filter p').map Version.core =
      ((σ.inner.chainOf T r).filter p).map Version.core)
    {ix' : Index} (hix : σ.inner.indexes.get? i = some ix)
    (hix' : σ'.inner.indexes.get? i = some ix') (hheader : ix'.header = ix.header) :
    σ'.inner.entriesOf p' ix' = σ.inner.entriesOf p ix := by
  obtain ⟨t, ht, hi⟩ := h.catalog.owned i ix hix
  obtain ⟨t', ht', hi'⟩ := h'.catalog.owned i ix' hix'
  have htable : ix'.table = ix.table := congrArg Prod.fst hheader
  have horder : ix'.order = ix.order := congrArg (fun p => p.2.2) hheader
  have hpair := (h.rows.linked _ t i ix ht hi hix).sorted.pairwise
  have hpair' := (h'.rows.linked _ t' i ix' ht' hi' hix').sorted.pairwise
  rw [horder] at hpair'
  refine eq_of_mem_iff_of_pairwise (fun _ => EntryLt.irrefl) (fun _ _ => EntryLt.asymm)
    (hpair'.filter _) (hpair.filter _) fun e => ?_
  refine (h'.mem_entriesOf_iff hix').trans (Iff.trans ?_ (h.mem_entriesOf_iff hix).symm)
  rw [htable, horder, hchains]

lemma Tracked.entriesOf_true (h : Tracked ok σ)
    (hix : σ.inner.indexes.get? i = some ix) {q : Version → Bool} (hq : ∀ v, q v = !p v) :
    (ix.entries.filter fun e => !(σ.inner.versionOf ix.table e).any q) =
      σ.inner.entriesOf p ix := by
  obtain ⟨t, ht, hi⟩ := h.catalog.owned i ix hix
  obtain ⟨m, hp⟩ := h.precise
  refine filter_congr fun e he => ?_
  obtain ⟨_, ⟨v, hv, hseq, _⟩, _⟩ := ((hp.exact _ t i ix ht hi hix).lists e).mp he
  rw [Inner.versionOf, ht, bind_some, ← hseq,
    (h.rows.wellFormed _ t ht).findVersion_eq hv, any_some, any_some, hq,
    Bool.not_not]

end Tracked

namespace Rewritten

variable {f g : List Version → List Version} {s s₁ s' : Inner}

lemma trans (h : Rewritten f s s₁) (h' : Rewritten g s₁ s') : Rewritten (g ∘ f) s s' where
  rest := by rw [h'.rest, h.rest]
  tables := fun T => (h'.tables T).trans (h.tables T)
  indexes := fun i => (h'.indexes i).trans (h.indexes i)
  chains := fun T r => by rw [h'.chains, h.chains, Function.comp_apply]

lemma congr (h : Rewritten f s s') (hfg : ∀ T r, f (s.chainOf T r) = g (s.chainOf T r)) :
    Rewritten g s s' :=
  ⟨h.rest, h.tables, h.indexes, fun T r => (h.chains T r).trans (hfg T r)⟩

variable {ok : Column → Value → Bool} {σ σ' : Site} {keep : Version → Bool}
  {fix : Version → Version}

lemma table_eq (hr : Rewritten (fun c => (c.filter keep).map fix) s s') {T : TableId}
    {t' : Table} (ht : s.tables.get? T = some t) (ht' : s'.tables.get? T = some t')
    (hwf' : t'.WellFormed) : t' = { t with
      rows := (t.rows.mapVals fun _ c => (c.filter keep).map fix).filter
        fun _ c => !c.isEmpty } := by
  have hframe := hr.tables T
  rw [ht, ht', map_some, map_some, Option.some_inj] at hframe
  rw [eq_of_frame hframe]
  congr 1
  refine ext_get? fun r => ?_
  have hchain := hr.chains T r
  rw [Inner.chainOf_eq ht, Inner.chainOf_eq ht'] at hchain
  rw [hwf'.get?_eq r, hchain, get?_filter, get?_mapVals, chainOf]
  cases t.rows.get? r <;> rfl

/-- Where the indexes are exact, the chains tell the whole state. -/
theorem eq_erase (h : Tracked ok σ) (h' : Tracked ok σ')
    (hr : Rewritten (fun c => (c.filter keep).map fix) σ.inner σ'.inner)
    (hfix : ∀ v, (fix v).core = v.core) :
    σ'.inner = { σ.inner.erase keep fix with txns := σ'.inner.txns } := by
  have htables : σ'.inner.tables = (σ.inner.erase keep fix).tables := by
    refine ext_get? fun T => ?_
    rw [Inner.erase, get?_mapVals]
    have hframe := hr.tables T
    cases ht : σ.inner.tables.get? T with
    | none =>
      rw [ht, map_none, Option.map_eq_none_iff] at hframe
      rw [hframe, map_none]
    | some t =>
      rw [ht, map_some, Option.map_eq_some_iff] at hframe
      obtain ⟨t', ht', _⟩ := hframe
      rw [ht', map_some, hr.table_eq ht ht' (h'.rows.wellFormed T t' ht')]
  have hindexes : σ'.inner.indexes = (σ.inner.erase keep fix).indexes := by
    refine ext_get? fun i => ?_
    rw [Inner.erase, get?_mapVals]
    have hheader := hr.indexes i
    cases hix : σ.inner.indexes.get? i with
    | none =>
      rw [hix, map_none, Option.map_eq_none_iff] at hheader
      rw [hheader, map_none]
    | some ix =>
      rw [hix, map_some, Option.map_eq_some_iff] at hheader
      obtain ⟨ix', hix', hheader⟩ := hheader
      have hentries := h.entriesOf_eq h' (p := keep) (fun T r => by
        rw [hr.chains, filter_true, map_map]
        exact map_congr_left fun v _ => hfix v) hix hix' hheader
      rw [← h'.entriesOf_true hix' (q := fun _ => false) fun _ => rfl,
        ← h.entriesOf_true hix (q := fun v => !keep v) fun _ => rfl] at hentries
      rw [hix', map_some, ← hentries]
      obtain ⟨_, _, _, entries'⟩ := ix'
      cases hheader
      simp
  rw [hr.rest, htables, hindexes]
  rfl

end Rewritten

/-! ### Rollback -/

lemma undo_rest (s₀ : Inner) (txn : TxnId) (entry : UndoEntry) :
    Preserves (fun s => s = { s₀ with tables := s.tables, indexes := s.indexes } ∧
      ∀ T, (s.tables.get? T).map frame = (s₀.tables.get? T).map frame)
      (undo txn entry) := by
  rintro s ⟨hrest, htables⟩
  refine undo_rule (fun s => s = { s₀ with tables := s.tables, indexes := s.indexes } ∧
    ∀ T, (s.tables.get? T).map frame = (s₀.tables.get? T).map frame) ⟨hrest, htables⟩
    fun t _ _ ht hu => ?_
  rw [removeFromIndexes_frame]
  refine ⟨by rw [hrest], fun T => ?_⟩
  rw [get?_insert, ← htables T]
  split_ifs with hT
  · rw [hT, ht, map_some, map_some, frame_undoTable hu]
  · rfl

lemma undoAll_rest (s : Inner) (txn : TxnId) (writes : List UndoEntry) :
    (undoAll txn writes s).state = { s with
      tables := (undoAll txn writes s).state.tables
      indexes := (undoAll txn writes s).state.indexes } ∧
    ∀ T, ((undoAll txn writes s).state.tables.get? T).map frame = (s.tables.get? T).map frame :=
  Preserves.forM (fun entry _ => undo_rest s txn entry) s ⟨rfl, fun _ => rfl⟩

variable {ok : Column → Value → Bool} {σ : Site}

/-- A rollback takes the writes of its transaction out of every chain. -/
lemma Tracked.rollback_rewrites
    (hok : ∀ c v, ok c v = true → v.selfComparable = true) (h : Tracked ok σ)
    {x : TxnId} (hx : x ∉ σ.history.ended) : ∃ s', rollback x σ.inner = .ok () s' ∧
      s'.txns = σ.inner.txns.insert x (.finished .aborted) ∧ Rewritten (without x) σ.inner s' := by
  obtain ⟨m, hp⟩ := h.precise
  have hl := h.registry.ledger
  obtain ⟨s', hres, hframed, hp'⟩ := hp.rollback hok hl h.catalog h.rows hx
  have ho := ((rollback_outcome σ.inner x).resolve_left fun ⟨_, _, hs⟩ =>
    hs (hl.stateOf_of_live hx)).2
  obtain ⟨hrest, htables⟩ := undoAll_rest
    { σ.inner with txns := σ.inner.txns.insert x (.finished .aborted) } x (σ.inner.stateOf x).writes
  rw [← ho, hres, Result.state_ok] at hrest htables
  have htxns : s'.txns = σ.inner.txns.insert x (.finished .aborted) := congrArg Inner.txns hrest
  refine ⟨s', hres, htxns, ⟨hrest.trans (by rw [htxns]), htables, hframed.catalog.indexes,
    fun T r => ?_⟩⟩
  -- no write of `x` is left in its log, so none is left in the chain
  rw [← hframed.chains T r]
  have hlog : s'.logs x = [] := by
    rw [Inner.logs, Inner.stateOf, htxns, get?_insert_self]
    rfl
  refine (without_eq_self fun v hv => ?_).symm
  rw [Inner.chainOf] at hv
  rcases ht : s'.tables.get? T with _ | t
  · simp [ht] at hv
  rcases hc : t.rows.get? r with _ | c
  · simp [ht, hc] at hv
  have htail := hp'.tails x (fun hmem => hx (hl.ended x hmem)) T t r c ht hc
  rw [hlog, onRow_nil] at htail
  exact htail.not_mentioned v (by simpa [ht, hc] using hv)

lemma selfComparable_ok (_ : Column) (v : Value) (h : v.selfComparable = true) :
    v.selfComparable = true := h

/-- In every run whose key values compare equal to themselves, the rollback of a transaction
that has not ended succeeds.  It drops the versions the transaction created, with their index
entries and the rows left empty, makes the versions it had deleted current again, and changes
nothing else but the status of the transaction. -/
theorem rollback_erases {σ : Site} (h : σ.Reachable Call.Comparable) {x : TxnId}
    (hx : x ∉ σ.history.ended) :
    rollback x σ.inner = .ok ()
      { σ.inner.erase (fun v => decide (v.xmin ≠ x)) (Version.without x) with
        txns := σ.inner.txns.insert x (.finished .aborted) } := by
  have htracked := h.tracked selfComparable_ok fun _ _ hc => hc
  obtain ⟨s', hres, htxns, hr⟩ := htracked.rollback_rewrites selfComparable_ok hx
  have hafter := htracked.after selfComparable_ok (.rollback x)
    (fun t ht => Option.some.inj ht ▸ hx) trivial
  have hinner : (σ.after (.rollback x)).inner = s' := by
    simp only [Site.after, Call.after, Call.exec, Call.state_map, hres, Result.state_ok]
  have heq := Rewritten.eq_erase htracked hafter (hinner ▸ hr) fun v => by
    rw [Version.without]
    split_ifs <;> rfl
  rw [hinner, htxns] at heq
  rw [hres, ← heq]

/-- A transaction inserts a value into the indexed column. -/
def insertFloat (v : Value) : List Call := floatTable ++ [.insert 1 1 [v]]

/-- A rollback that has to remove a NaN from an index fails. -/
theorem nan_is_not_erased :
    (Site.initial.run (insertFloat nan)).Reachable (fun _ _ => True) ∧
    (Site.initial.run (insertFloat nan)).inner.status 1 = .inProgress ∧
    ∃ e s', rollback 1 (Site.initial.run (insertFloat nan)).inner = .error e s' := by
  refine ⟨Site.Reachable.run .refl ?_, by decide +kernel, _, _, rfl⟩
  simp [Site.Runs, insertFloat, floatTable, Site.after, History.after, Call.txn?,
    Site.initial, History.empty]

lemma insertFloat_reachable : (Site.initial.run (insertFloat (.f64 0))).Reachable Call.Comparable :=
  Site.Reachable.run .refl
    (show Site.initial.Runs Call.Comparable (insertFloat (.f64 0) ++ [.rollback 1]) from
      insertAndRollback_comparable).of_append

/-- A committed value, deleted by a transaction that is still open. -/
def openDelete : List Call := insertFloat (.f64 0) ++ [.commit 1, .delete 2 1 1]

lemma two_notMem_ended : (2 : TxnId) ∉ (Set.insert 1 ∅ : Set TxnId) := by
  rintro (h | h) <;> cases h

lemma openDelete_reachable : (Site.initial.run openDelete).Reachable Call.Comparable := by
  refine (insertFloat_reachable.tail (.call (.commit 1) ?_ trivial)).tail
    (.call (.delete 2 1 1) ?_ trivial)
  · exact fun t _ => id
  · exact fun t ht => Option.some.inj ht ▸ two_notMem_ended

/-- The rollback of a delete leaves the row as its insert left it. -/
theorem delete_is_erased :
    rollback 2 (Site.initial.run openDelete).inner = .ok ()
      { (Site.initial.run openDelete).inner.erase (fun v => decide (v.xmin ≠ 2))
          (Version.without 2) with
        txns := (Site.initial.run openDelete).inner.txns.insert 2 (.finished .aborted) } ∧
    ((Site.initial.run openDelete).inner.chainOf 1 1).map (fun v => (v.xmin, v.xmax)) =
      [(1, some 2)] ∧
    (((Site.initial.run openDelete).inner.erase (fun v => decide (v.xmin ≠ 2))
      (Version.without 2)).chainOf 1 1).map (fun v => (v.xmin, v.xmax)) = [(1, none)] :=
  ⟨rollback_erases openDelete_reachable two_notMem_ended, by decide +kernel, by decide +kernel⟩

/-! ### Vacuum -/

lemma Tracked.vacuum_rewrites
    (hok : ∀ c v, ok c v = true → v.selfComparable = true) (h : Tracked ok σ) (horizon : TxnId) :
    ∃ s', vacuum horizon σ.inner = .ok () s' ∧
      s'.txns = σ.inner.txns.filter (fun t state => !(state.isFinished && decide (t < horizon))) ∧
      Rewritten (filter (keeps horizon σ.inner.status)) σ.inner s' := by
  obtain ⟨m, hp⟩ := h.precise
  obtain ⟨s', hres, _⟩ := hp.vacuum hok h.registry.ledger h.catalog h.rows horizon
  have hswept := Swept.vacuum σ.inner horizon
  obtain ⟨s₁, hloop, hv⟩ := (vacuum_outcome horizon σ.inner).resolve_left (by
    rintro ⟨e, s₁, _, hv⟩
    rw [hres] at hv
    cases hv)
  obtain ⟨done, s₂, _, hs₂, htables, hframe, hdone⟩ := vacuumLoop_outcome horizon σ.inner.status
    σ.inner.tables.keys (keys_nodup _) σ.inner
  rw [hloop] at hs₂ hdone
  obtain rfl : s₁ = s₂ := hs₂
  rw [hv, Result.state_ok] at hswept
  cases hv.symm.trans hres
  refine ⟨_, hv, by rw [hframe]; rfl, by rw [hframe]; rfl, fun T => ?_, hswept.catalog.indexes,
    fun T r => ?_⟩
  · rw [show (s₁.pruned horizon).tables = s₁.tables from rfl, htables T, Option.map_map]
    refine congrArg (Option.map · _) (funext fun t => ?_)
    rw [Function.comp_apply]
    split_ifs <;> rfl
  · -- a chain the loop has left alone has nothing to discard
    rcases hswept.chains T r with heq | heq
    · rw [heq, eq_comm, filter_eq_self]
      intro v hmem
      rw [← heq, Inner.chainOf] at hmem
      rcases ht : s₁.tables.get? T with _ | t
      · simp [Inner.pruned, ht] at hmem
      rw [show (s₁.pruned horizon).tables.get? T = s₁.tables.get? T from rfl, ht,
        bind_some] at hmem
      exact (keeps_of_vacuumLoop hloop ht (mem_chainOf_iff.mp hmem)).1
    · exact heq

/-- What a second vacuum keeps of a version the first one has left is what one vacuum with the
larger horizon keeps: the transactions forgotten in between were committed, or wrote nothing
that is left. -/
lemma Tracked.keeps_keeps {σ₁ : Site} (h : Tracked ok σ) {h₁ : TxnId} (htxns : σ₁.inner.txns =
      σ.inner.txns.filter fun t state => !(state.isFinished && decide (t < h₁)))
    (h₂ : TxnId) {T : TableId} {r : RowId} {v : Version} (hv : v ∈ σ.inner.chainOf T r) :
    (keeps h₁ σ.inner.status v && keeps h₂ σ₁.inner.status v) =
      keeps (max h₁ h₂) σ.inner.status v := by
  obtain ⟨m, hp⟩ := h.precise
  have hl := h.registry.ledger
  -- the status of whoever the version mentions is the same after the first vacuum
  have hstatus : ∀ w, v.xmin = w ∨ v.xmax = some w → σ.inner.status w ≠ .aborted ∧
      σ₁.inner.status w = σ.inner.status w := by
    intro w hw
    rw [Inner.chainOf] at hv
    rcases ht : σ.inner.tables.get? T with _ | t
    · simp [ht] at hv
    rw [ht, bind_some] at hv
    have hne : σ.inner.status w ≠ .aborted := by
      rcases hp.committed_or_inProgress hl ht (mem_chainOf_iff.mp hv) hw with hc | hi
      · rw [Inner.status, hl.status_of_committed hc]
        decide
      · rw [hi]
        decide
    refine ⟨hne, ?_⟩
    rw [Inner.status, Inner.status, statusIn, statusIn, htxns, get?_filter]
    rw [Inner.status, statusIn] at hne
    rcases hs : σ.inner.txns.get? w with _ | st
    · rfl
    rw [hs] at hne
    rw [Option.filter_some]
    split_ifs with hkeep
    · rfl
    · obtain ⟨status, writes, marks⟩ := st
      cases status <;> simp_all [TxnState.isFinished]
  have hmin := hstatus v.xmin (.inl rfl)
  rcases hx : v.xmax with _ | w
  · simp [keeps, expired, orphaned, hx, hmin]
  have hw := hstatus w (.inr hx)
  simp only [keeps, expired, orphaned, hx, hmin, hw, any_some]
  have hcreator : (σ.inner.status v.xmin == .aborted) = false := by simpa using hmin.1
  cases σ.inner.status w == .committed <;> simp [hcreator]

/-- In every run whose key values compare equal to themselves, a vacuum after a vacuum leaves
what one vacuum with the larger horizon leaves; none of them fails. -/
theorem vacuum_after_vacuum {σ : Site} (h : σ.Reachable Call.Comparable) (h₁ h₂ : TxnId) :
    ∃ s₁ s', vacuum h₁ σ.inner = .ok () s₁ ∧
      vacuum h₂ s₁ = .ok () s' ∧
      vacuum (max h₁ h₂) σ.inner = .ok () s' := by
  have htracked := h.tracked selfComparable_ok fun _ _ hc => hc
  have hafter : ∀ {σ : Site}, Tracked _ σ → ∀ n, Tracked _ (σ.after (.vacuum n)) :=
    fun hσ n => hσ.after selfComparable_ok (.vacuum n) nofun trivial
  have hinner : ∀ {σ : Site} {n s'}, vacuum n σ.inner = .ok () s' →
      (σ.after (.vacuum n)).inner = s' := by
    intro σ n s' hres
    simp only [Site.after, Call.after, Call.exec, Call.state_map, hres, Result.state_ok]
  obtain ⟨s₁, hres₁, htxns₁, hr₁⟩ := htracked.vacuum_rewrites selfComparable_ok h₁
  obtain rfl := hinner hres₁
  obtain ⟨s₂, hres₂, htxns₂, hr₂⟩ := (hafter htracked h₁).vacuum_rewrites selfComparable_ok h₂
  obtain rfl := hinner hres₂
  obtain ⟨s', hres', htxns', hr'⟩ := htracked.vacuum_rewrites selfComparable_ok (max h₁ h₂)
  obtain rfl := hinner hres'
  refine ⟨_, _, hres₁, hres₂, hres'.trans ?_⟩
  have hboth : Rewritten (fun c => (c.filter (keeps (max h₁ h₂) σ.inner.status)).map id)
      σ.inner ((σ.after (.vacuum h₁)).after (.vacuum h₂)).inner := by
    refine (hr₁.trans hr₂).congr fun T r => ?_
    rw [Function.comp_apply, filter_filter, map_id]
    refine filter_congr fun v hv => ?_
    rw [Bool.and_comm]
    exact htracked.keeps_keeps htxns₁ h₂ hv
  have hone : Rewritten (fun c => (c.filter (keeps (max h₁ h₂) σ.inner.status)).map id)
      σ.inner (σ.after (.vacuum (max h₁ h₂))).inner :=
    hr'.congr fun T r => (map_id _).symm
  have htxns : (σ.after (.vacuum (max h₁ h₂))).inner.txns =
      ((σ.after (.vacuum h₁)).after (.vacuum h₂)).inner.txns := by
    rw [htxns', htxns₂, htxns₁]
    refine ext_get? fun x => ?_
    simp only [get?_filter, Option.filter_filter]
    refine congrArg (Option.filter · _) (funext fun st => ?_)
    cases st.isFinished <;> simp
  rw [Rewritten.eq_erase htracked (hafter (hafter htracked h₁) h₂) hboth fun _ => rfl,
    Rewritten.eq_erase htracked (hafter htracked (max h₁ h₂)) hone fun _ => rfl, htxns]

/-- A value committed into the indexed column, then deleted by a committed transaction. -/
def deletedFloat (v : Value) : List Call :=
  insertFloat v ++ [.commit 1, .delete 2 1 1, .commit 2]

/-- A vacuum that has to remove a NaN from an index fails, and a second one succeeds. -/
theorem nan_vacuum_is_not_idempotent :
    (Site.initial.run (deletedFloat nan)).Reachable (fun _ _ => True) ∧
    (∀ p ∈ (Site.initial.run (deletedFloat nan)).inner.txns.entries, p.2.isFinished = true) ∧
    (vacuum 3
      (vacuum 3 (Site.initial.run (deletedFloat nan)).inner).state).state ≠
      (vacuum (max 3 3) (Site.initial.run (deletedFloat nan)).inner).state := by
  refine ⟨Site.Reachable.run .refl ?_, by decide +kernel, by decide +kernel⟩
  simp only [Site.Runs, deletedFloat, insertFloat, floatTable, cons_append, nil_append,
    Site.after, History.after, Call.txn?, Site.initial, History.empty, Option.some.injEq,
    forall_eq', implies_true, true_and, and_true, reduceCtorEq, false_implies]
  refine ⟨id, id, ?_, ?_⟩ <;> rintro (h | h) <;> cases h

lemma deletedFloat_reachable :
    (Site.initial.run (deletedFloat (.f64 0))).Reachable Call.Comparable :=
  openDelete_reachable.tail (.call (.commit 2) (fun _ ht => Option.some.inj ht ▸ two_notMem_ended)
    trivial)

/-- A deleted row: the first vacuum forgets the transaction that inserted it, the second one removes
the version, and so does one vacuum with the larger horizon. -/
theorem zero_vacuums_compose :
    ∃ s₁ s', vacuum 2 (Site.initial.run (deletedFloat (.f64 0))).inner = .ok () s₁ ∧
      vacuum 3 s₁ = .ok () s' ∧
      vacuum (max 2 3) (Site.initial.run (deletedFloat (.f64 0))).inner = .ok () s' ∧
      (s₁.tables.get? 1).map (fun t => t.rows.keys) = some [1] ∧ s₁.txns.keys = [2] ∧
      (s'.tables.get? 1).map rows = some .empty ∧
      (s'.indexes.get? 1).map Index.entries = some [] ∧ s'.txns.keys = [] := by
  obtain ⟨s₁, s', h₁, h₂, h⟩ := vacuum_after_vacuum deletedFloat_reachable 2 3
  have hs₁ : s₁ = (vacuum 2 (Site.initial.run (deletedFloat (.f64 0))).inner).state := by
    rw [h₁, Result.state_ok]
  have hs' : s' = (vacuum 3 (Site.initial.run (deletedFloat (.f64 0))).inner).state := by
    rw [show (3 : TxnId) = max 2 3 from rfl, h, Result.state_ok]
  refine ⟨s₁, s', h₁, h₂, h, ?_⟩
  rw [hs₁, hs']
  decide +kernel

end VaubanDB
