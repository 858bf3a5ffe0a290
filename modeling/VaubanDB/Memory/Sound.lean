import VaubanDB.Memory.Outcomes

/-!
The catalogue and the rows in every run.

`Catalog` says that databases, tables and indexes refer to each other correctly and that the
counters are ahead of the identifiers handed out; `Rows` says that every table is well formed
and that every index describes its table.  Both hold after every call, also after a rollback
or a vacuum that stopped half way.
-/

namespace VaubanDB

open Option (mem_unique some getD_some map_eq_some_iff)
open MemoryStorage OrderedMap EStateM Version List

/-! ### The catalogue -/

/-- Databases, tables and indexes refer to each other. -/
structure Catalog (s : Inner) : Prop where
  db_lt : ∀ d D, s.databases.get? d = some D → d < s.nextDbId
  table_lt : ∀ T t, s.tables.get? T = some t → T < s.nextTableId
  index_lt : ∀ i ix, s.indexes.get? i = some ix → i < s.nextIndexId
  owned : ∀ i ix, s.indexes.get? i = some ix →
    ∃ t, s.tables.get? ix.table = some t ∧ i ∈ t.indexes.keys
  listed : ∀ T t i, s.tables.get? T = some t → i ∈ t.indexes.keys →
    ∃ ix, s.indexes.get? i = some ix ∧ ix.table = T
  contained : ∀ d D T, s.databases.get? d = some D → T ∈ D.tables.keys →
    ∃ t, s.tables.get? T = some t ∧ t.db = d
  clustered : ∀ T t order, s.tables.get? T = some t → t.clustered = some order →
    ∀ c ∈ order.columns, c.position < t.arity

/-- The tables are well formed and the indexes describe them. -/
structure Rows (s : Inner) : Prop where
  wellFormed : ∀ T t, s.tables.get? T = some t → t.WellFormed
  linked : ∀ T t i ix, s.tables.get? T = some t → i ∈ t.indexes.keys →
    s.indexes.get? i = some ix → Linked s.status t ix

/-- A change of the rows of one table and of the entries of its indexes. -/
structure LocalChange (s s' : Inner) (T : TableId) (t t' : Table) : Prop where
  before : s.tables.get? T = some t
  tables_eq : s'.tables = s.tables.insert T t'
  db_eq : t'.db = t.db
  shape_eq : t'.shape = t.shape
  clustered_eq : t'.clustered = t.clustered
  indexes_eq : t'.indexes = t.indexes
  databases_eq : s'.databases = s.databases
  nextDbId_eq : s'.nextDbId = s.nextDbId
  nextTableId_eq : s'.nextTableId = s.nextTableId
  nextIndexId_eq : s'.nextIndexId = s.nextIndexId
  others : ∀ i, i ∉ t.indexes.keys → s'.indexes.get? i = s.indexes.get? i
  mine : ∀ i ∈ t.indexes.keys, ∀ ix, s.indexes.get? i = some ix →
    ∃ entries, s'.indexes.get? i = some { ix with entries }

variable {i : IndexId}

namespace LocalChange

variable {s s' : Inner} {T : TableId} {t t' : Table}

variable (h : LocalChange s s' T t t')
include h

lemma get?_cases {T' : TableId} {u : Table} (hu : s'.tables.get? T' = some u) :
    (T' = T ∧ u = t') ∨ (T' ≠ T ∧ s.tables.get? T' = some u) := by
  rw [h.tables_eq, get?_insert] at hu
  split_ifs at hu with hT
  · exact .inl ⟨hT, (some.inj hu).symm⟩
  · exact .inr ⟨hT, hu⟩

lemma get?_after : s'.tables.get? T = some t' := by
  rw [h.tables_eq, get?_insert_self]

lemma get?_other {T' : TableId} (hT : T' ≠ T) : s'.tables.get? T' = s.tables.get? T' := by
  rw [h.tables_eq, get?_insert_ne _ _ hT]

lemma index_cases (hcat : Catalog s) {ix' : Index} (hix : s'.indexes.get? i = some ix') :
    ∃ ix entries, s.indexes.get? i = some ix ∧ ix' = { ix with entries } := by
  by_cases hi : i ∈ t.indexes.keys
  · obtain ⟨ix, hix₀, _⟩ := hcat.listed T t i h.before hi
    obtain ⟨entries, hix₁⟩ := h.mine i hi ix hix₀
    exact ⟨ix, entries, hix₀, mem_unique hix hix₁⟩
  · exact ⟨ix', ix'.entries, (h.others i hi) ▸ hix, rfl⟩

lemma index_other (hcat : Catalog s) {T' : TableId} {u : Table}
    (hT : T' ≠ T) (hu : s.tables.get? T' = some u) (hi : i ∈ u.indexes.keys) :
    s'.indexes.get? i = s.indexes.get? i := by
  refine h.others i fun hmine => hT ?_
  obtain ⟨ix₁, hix₁, htable₁⟩ := hcat.listed T t i h.before hmine
  obtain ⟨ix₂, hix₂, htable₂⟩ := hcat.listed T' u i hu hi
  obtain rfl := mem_unique hix₁ hix₂
  exact htable₂.symm.trans htable₁

lemma catalog (hcat : Catalog s) : Catalog s' where
  db_lt := by
    rw [h.databases_eq, h.nextDbId_eq]
    exact hcat.db_lt
  table_lt := by
    intro T' u hu
    rw [h.nextTableId_eq]
    rcases h.get?_cases hu with ⟨rfl, _⟩ | ⟨_, hu⟩
    · exact hcat.table_lt T' t h.before
    · exact hcat.table_lt T' u hu
  index_lt := by
    intro i ix hix
    rw [h.nextIndexId_eq]
    obtain ⟨ix₀, _, hix₀, _⟩ := h.index_cases hcat hix
    exact hcat.index_lt i ix₀ hix₀
  owned := by
    intro i ix hix
    obtain ⟨ix₀, _, hix₀, rfl⟩ := h.index_cases hcat hix
    obtain ⟨u, hu, hmem⟩ := hcat.owned i ix₀ hix₀
    by_cases hT : ix₀.table = T
    · rw [hT] at hu
      obtain rfl := mem_unique hu h.before
      exact ⟨t', hT ▸ h.get?_after, h.indexes_eq ▸ hmem⟩
    · exact ⟨u, (h.get?_other hT).trans hu, hmem⟩
  listed := by
    intro T' u i hu hi
    have hold : ∃ u₀, s.tables.get? T' = some u₀ ∧ i ∈ u₀.indexes.keys := by
      rcases h.get?_cases hu with ⟨rfl, rfl⟩ | ⟨_, hu⟩
      · exact ⟨t, h.before, h.indexes_eq ▸ hi⟩
      · exact ⟨u, hu, hi⟩
    obtain ⟨u₀, hu₀, hi₀⟩ := hold
    obtain ⟨ix, hix, htable⟩ := hcat.listed T' u₀ i hu₀ hi₀
    by_cases hmine : i ∈ t.indexes.keys
    · obtain ⟨entries, hix'⟩ := h.mine i hmine ix hix
      exact ⟨_, hix', htable⟩
    · exact ⟨ix, (h.others i hmine).trans hix, htable⟩
  contained := by
    intro d D T' hD hT'
    rw [h.databases_eq] at hD
    obtain ⟨u, hu, hdb⟩ := hcat.contained d D T' hD hT'
    by_cases hT : T' = T
    · subst hT
      obtain rfl := mem_unique hu h.before
      exact ⟨t', h.get?_after, h.db_eq.trans hdb⟩
    · exact ⟨u, (h.get?_other hT).trans hu, hdb⟩
  clustered := by
    intro T' u order hu horder
    rcases h.get?_cases hu with ⟨rfl, rfl⟩ | ⟨_, hu⟩
    · rw [Table.arity, h.shape_eq]
      exact hcat.clustered T' t order h.before (h.clustered_eq ▸ horder)
    · exact hcat.clustered T' u order hu horder

lemma rows (hcat : Catalog s) (hrows : Rows s) (hwf : t'.WellFormed)
    (hlinked : ∀ i ∈ t.indexes.keys, ∀ ix', s'.indexes.get? i = some ix' → Linked s'.status t' ix')
    (hstatus : ∀ x, s'.status x ≠ .aborted → s.status x ≠ .aborted) : Rows s' where
  wellFormed := by
    intro T' u hu
    rcases h.get?_cases hu with ⟨_, rfl⟩ | ⟨_, hu⟩
    · exact hwf
    · exact hrows.wellFormed T' u hu
  linked := by
    intro T' u i ix hu hi hix
    rcases h.get?_cases hu with ⟨rfl, rfl⟩ | ⟨hT, hu⟩
    · exact hlinked i (h.indexes_eq ▸ hi) ix hix
    · rw [h.index_other hcat hT hu hi] at hix
      exact (hrows.linked T' u i ix hu hi hix).congr_status hstatus

end LocalChange

/-! ### Writes -/

lemma status_insert_txn (s : Inner) (txn : TxnId) (state : TxnState) (x : TxnId) :
    { s with txns := s.txns.insert txn state }.status x
      = if x = txn then state.status else s.status x := by
  simp only [Inner.status, statusIn, get?_insert]
  split_ifs <;> rfl

variable {txn : TxnId} {s : Inner}

lemma status_of_inProgress
    (h : (s.stateOf txn).status = .inProgress) : s.status txn ≠ .aborted := by
  rw [Inner.stateOf] at h
  rw [Inner.status, statusIn]
  rcases hs : s.txns.get? txn with _ | state
  · simp
  rw [hs] at h
  simp only [getD_some] at h
  simp [h]

lemma status_written (h : (s.stateOf txn).status = .inProgress)
    (table : TableId) (t : Table) (planned : List PlannedEntry) (entry : UndoEntry) (x : TxnId) :
    (s.written txn table t planned entry).status x
      = if x = txn then .inProgress else s.status x := by
  rw [← h]
  exact status_insert_txn s txn { s.stateOf txn with writes := (s.stateOf txn).writes ++ [entry] } x

section Writes

variable {s : Inner} {txn : TxnId} {T : TableId} {t t' : Table} {row : Row} {id : RowId}
  {replacing : Option RowId} {planned : List PlannedEntry} {entry : UndoEntry}

lemma written_localChange (ht : s.tables.get? T = some t)
    (hplan : s.planEntries txn T row id t.nextSeq replacing = .ok planned)
    (hdb : t'.db = t.db) (hshape : t'.shape = t.shape) (hclustered : t'.clustered = t.clustered)
    (hindexes : t'.indexes = t.indexes) :
    LocalChange s (s.written txn T t' planned entry) T t t' := by
  obtain ⟨hothers, hmine⟩ := planEntries_spec ht hplan
  refine ⟨ht, rfl, hdb, hshape, hclustered, hindexes, rfl, rfl, rfl, rfl, hothers, ?_⟩
  intro i hi ix hix
  obtain ⟨ix', key, pos, hp, hget⟩ := hmine i hi
  obtain rfl := mem_unique hix hp.index_eq
  exact ⟨_, hget⟩

lemma written_sound (hcat : Catalog s) (hrows : Rows s) (ht : s.tables.get? T = some t)
    (hstatus : (s.stateOf txn).status = .inProgress)
    (hplan : s.planEntries txn T row id t.nextSeq replacing = .ok planned)
    (hdb : t'.db = t.db) (hshape : t'.shape = t.shape) (hclustered : t'.clustered = t.clustered)
    (hindexes : t'.indexes = t.indexes) (hwf : t'.WellFormed) (hseq : t'.nextSeq = t.nextSeq + 1)
    (hstored : ∀ r v, Stored t'.rows r v → (r = id ∧ v.seq = t.nextSeq ∧ v.data = row) ∨
      (v.seq < t.nextSeq ∧ ∃ w, Stored t.rows r w ∧ w.core = v.core)) :
    Catalog (s.written txn T t' planned entry) ∧ Rows (s.written txn T t' planned entry) := by
  have hlocal : LocalChange s (s.written txn T t' planned entry) T t t' :=
    written_localChange ht hplan hdb hshape hclustered hindexes
  have hmono : ∀ x, (s.written txn T t' planned entry).status x ≠ .aborted →
      s.status x ≠ .aborted := by
    intro x hx
    rw [status_written hstatus] at hx
    split_ifs at hx with hxt
    · exact hxt ▸ status_of_inProgress hstatus
    · exact hx
  refine ⟨hlocal.catalog hcat, hlocal.rows hcat hrows hwf ?_ hmono⟩
  intro i hi ix' hix'
  obtain ⟨ix, key, pos, hp, hget⟩ := (planEntries_spec ht hplan).2 i hi
  obtain rfl := mem_unique hix' hget
  obtain ⟨hle, hlink⟩ := (hrows.linked T t i ix ht hi hp.index_eq).insertEntry hshape hseq
    hstored hmono hp.key_eq hp.pos_eq
  rw [min_eq_left hle]
  exact hlink

end Writes

variable {t t' : Table} {r : RowId} {v : Version} {c : List Version} {s : Inner} {T : TableId}
  {removed : List (RowId × Version)}

variable {a : Version}

lemma stored_withUpdate (hwf : t.WellFormed) {row : Row} {id : RowId}
    (hc : t.rows.get? id = some (c ++ [a])) (hv : Stored (t.withUpdate txn id c a row).rows r v) :
    (r = id ∧ v.seq = t.nextSeq ∧ v.data = row) ∨
      (v.seq < t.nextSeq ∧ ∃ w, Stored t.rows r w ∧ w.core = v.core) := by
  have hold : ∀ w ∈ c ++ [a], w.core = v.core → r = id →
      v.seq < t.nextSeq ∧ ∃ w, Stored t.rows r w ∧ w.core = v.core := by
    rintro w hw hcore rfl
    have hs : w.seq = v.seq := congrArg Prod.fst hcore
    exact ⟨hs ▸ hwf.seq_lt r w ⟨_, hc, hw⟩, w, ⟨_, hc, hw⟩, hcore⟩
  rcases stored_insert_iff.mp hv with ⟨hr, hv⟩ | ⟨_, hv⟩
  · simp only [mem_append, mem_cons, not_mem_nil, or_false] at hv
    rcases hv with hv | rfl | rfl
    · exact .inr (hold v (by simp [hv]) rfl hr)
    · exact .inr (hold a (by simp) rfl hr)
    · exact .inl ⟨hr, rfl, rfl⟩
  · exact .inr ⟨hwf.seq_lt r v hv, v, hv, rfl⟩

lemma insert_sound (hcat : Catalog s) (hrows : Rows s) (txn : TxnId) (T : TableId) (row : Row) :
    Catalog (insert txn T row s).state ∧ Rows (insert txn T row s).state := by
  rcases insert_outcome s txn T row with ⟨e, h, _⟩ | ⟨t, planned, ht, hlen, hstatus, hplan, h⟩
  · rw [h]
    exact ⟨hcat, hrows⟩
  · rw [h]
    have hwf := hrows.wellFormed T t ht
    refine written_sound hcat hrows ht hstatus hplan rfl rfl rfl rfl (hwf.withRow txn hlen) rfl ?_
    intro r v hv
    rcases stored_insert_iff.mp hv with ⟨hr, hv⟩ | ⟨_, hv⟩
    · obtain rfl := mem_singleton.mp hv
      exact .inl ⟨hr, rfl, rfl⟩
    · exact .inr ⟨hwf.seq_lt r v hv, v, hv, rfl⟩

lemma update_sound (hcat : Catalog s) (hrows : Rows s) (txn : TxnId) (T : TableId) (id : RowId)
    (row : Row) : Catalog (update txn T id row s).state ∧ Rows (update txn T id row s).state := by
  rcases update_outcome s txn T id row with
    ⟨e, h, _⟩ | ⟨t, c, a, planned, ht, hlen, hc, _, _, hstatus, hplan, h⟩
  · rw [h]
    exact ⟨hcat, hrows⟩
  · rw [h]
    have hwf := hrows.wellFormed T t ht
    exact written_sound hcat hrows ht hstatus hplan rfl rfl rfl rfl (hwf.withUpdate txn hc hlen)
      rfl fun r v hv => stored_withUpdate hwf hc hv

/-! ### Changes that only take versions away -/

def Inner.withTable (s : Inner) (T : TableId) (t : Table) : Inner :=
  { s with tables := s.tables.insert T t }

lemma withTable_sound (hcat : Catalog s) (hrows : Rows s) (ht : s.tables.get? T = some t)
    (hdb : t'.db = t.db) (hshape : t'.shape = t.shape) (hclustered : t'.clustered = t.clustered)
    (hindexes : t'.indexes = t.indexes) (hwf : t'.WellFormed) (hshrink : Shrinks t.rows t'.rows)
    (hseq : t.nextSeq ≤ t'.nextSeq) : Catalog (s.withTable T t') ∧ Rows (s.withTable T t') := by
  have hlocal : LocalChange s (s.withTable T t') T t t' :=
    ⟨ht, rfl, hdb, hshape, hclustered, hindexes, rfl, rfl, rfl, rfl, fun _ _ => rfl,
      fun _ _ ix hix => ⟨ix.entries, hix⟩⟩
  refine ⟨hlocal.catalog hcat, hlocal.rows hcat hrows hwf ?_ fun _ h => h⟩
  intro i hi ix hix
  exact (hrows.linked T t i ix ht hi hix).shrink hshape hshrink hseq fun _ h => h

lemma shrinks_withChain {c' : List Version} (hc : t.rows.get? r = some c)
    (hcore : (c'.map core).Sublist (c.map core)) : Shrinks t.rows (t.withChain r c').rows := by
  intro r' v hv
  rcases stored_insert_iff.mp hv with ⟨rfl, hmem⟩ | ⟨_, hold⟩
  · obtain ⟨w, hw, heq⟩ := mem_map.mp (hcore.subset (mem_map_of_mem hmem))
    exact ⟨w, ⟨c, hc, hw⟩, heq⟩
  · exact ⟨v, hold, rfl⟩

lemma withTxns_sound (hcat : Catalog s) (hrows : Rows s) (txns : OrderedMap TxnId TxnState)
    (hstatus : ∀ x, statusIn txns x ≠ .aborted → s.status x ≠ .aborted) :
    Catalog { s with txns } ∧ Rows { s with txns } :=
  ⟨{ hcat with }, ⟨hrows.wellFormed, fun T t i ix ht hi hix =>
    (hrows.linked T t i ix ht hi hix).congr_status hstatus⟩⟩

lemma delete_sound (hcat : Catalog s) (hrows : Rows s) (ht : s.tables.get? T = some t) {x : TxnId}
    (hc : t.rows.get? r = some (c ++ [a])) (hlive : (s.stateOf x).status = .inProgress) :
    let t' := t.withChain r (c ++ [{ a with xmax := some x }])
    Catalog (s.written x T t' [] (.delete T r)) ∧ Rows (s.written x T t' [] (.delete T r)) := by
  have hcore : ((c ++ [{ a with xmax := some x }]).map core).Sublist ((c ++ [a]).map core) := by
    simp [core]
  obtain ⟨hcat', hrows'⟩ := withTable_sound hcat hrows ht (by rfl) (by rfl) (by rfl) (by rfl)
    ((hrows.wellFormed T t ht).withChain hc (by simp) hcore) (shrinks_withChain hc hcore) le_rfl
  refine withTxns_sound hcat' hrows' _ fun y hy => ?_
  have hs := status_written hlive T t [] (.delete T r) y
  rw [Inner.status] at hs
  change statusIn (s.written x T t [] (.delete T r)).txns y ≠ .aborted at hy
  rw [hs] at hy
  change s.status y ≠ .aborted
  split_ifs at hy with hyx
  · exact hyx ▸ status_of_inProgress hlive
  · exact hy

/-! ### Removal of entries -/

lemma removeEntry_preserves {s₀ : Inner} (ht : s₀.tables.get? T = some t)
    (hi : i ∈ t.indexes.keys) {item : RowId × Version}
    (hgone : ∀ w, Stored t.rows item.1 w → w.seq ≠ item.2.seq) :
    Preserves (fun s => (Catalog s ∧ Rows s) ∧ s = { s₀ with indexes := s.indexes })
      (removeEntry i item) := by
  rintro s ⟨⟨hcat, hrows⟩, hframe⟩
  have hts : s.tables.get? T = some t := by
    rw [hframe]
    exact ht
  rw [removeEntry, get_bind_apply]
  rcases hix : s.indexes.get? i with _ | ix
  · exact ⟨⟨hcat, hrows⟩, hframe⟩
  simp only
  cases hrem : ix.removeVersion item.1 item.2 with
  | error e => exact ⟨⟨hcat, hrows⟩, hframe⟩
  | ok ix' =>
    rw [liftExcept_ok_bind_apply, set_apply]
    obtain ⟨hlink, entries, rfl⟩ := (hrows.linked T t i ix hts hi hix).removeVersion hgone hrem
    have hlocal : LocalChange s
        { s with indexes := s.indexes.insert i { ix with entries } } T t t := by
      refine ⟨hts, (insert_eq_self hts).symm, rfl, rfl, rfl, rfl, rfl, rfl, rfl, rfl, ?_, ?_⟩
      · intro j hj
        exact get?_insert_ne _ _ fun h => hj (h ▸ hi)
      · intro j _ jx hjx
        by_cases hji : j = i
        · subst hji
          obtain rfl := mem_unique hjx hix
          exact ⟨entries, get?_insert_self _ _ _⟩
        · exact ⟨jx.entries, (get?_insert_ne _ _ hji).trans hjx⟩
    refine ⟨⟨hlocal.catalog hcat, hlocal.rows hcat hrows (hrows.wellFormed T t hts) ?_
      fun _ h => h⟩, ?_⟩
    · intro j hj jx hjx
      simp only [get?_insert] at hjx
      split_ifs at hjx with hji
      · cases hjx
        exact hlink
      · exact hrows.linked T t j jx hts hj hjx
    · rw [hframe]
      rfl

/-! ### Undo and vacuum -/

structure TakenAway (t t' : Table) (removed : List (RowId × Version)) : Prop where
  db_eq : t'.db = t.db
  shape_eq : t'.shape = t.shape
  clustered_eq : t'.clustered = t.clustered
  indexes_eq : t'.indexes = t.indexes
  nextSeq_eq : t'.nextSeq = t.nextSeq
  wellFormed : t'.WellFormed
  shrinks : Shrinks t.rows t'.rows
  stored : ∀ item ∈ removed, Stored t.rows item.1 item.2
  gone : ∀ item ∈ removed, ∀ w, Stored t'.rows item.1 w → w.seq ≠ item.2.seq
  distinct : removed.Pairwise fun x y => ¬ (x.1 = y.1 ∧ x.2.seq = y.2.seq)
  complete : ∀ r v, Stored t.rows r v →
    (∃ v', Stored t'.rows r v' ∧ v'.core = v.core) ∨ (r, v) ∈ removed

variable (hwf : t.WellFormed)
include hwf

/-- A chain whose last version is dropped, the deleter of the one before being reset. -/
lemma takenAway_undoUpdate {b : Version} (hc : t.rows.get? r = some (c ++ [a, b])) :
    TakenAway t (t.withChain r (c ++ [{ a with xmax := none }])) [(r, b)] := by
  have hsub : ((c ++ [{ a with xmax := none }]).map core).Sublist
      ((c ++ [a, b]).map core) := by simp [core]
  have hseq := hwf.seq_increasing r _ hc
  rw [append_cons, pairwise_append] at hseq
  refine ⟨rfl, rfl, rfl, rfl, rfl, hwf.withChain hc (by simp) hsub, shrinks_withChain hc hsub, ?_,
    ?_, by simp, ?_⟩
  · intro item hitem
    obtain rfl := mem_singleton.mp hitem
    exact ⟨_, hc, by simp⟩
  · intro item hitem w hw
    obtain rfl := mem_singleton.mp hitem
    rcases stored_insert_iff.mp hw with ⟨_, hmem⟩ | ⟨hne, _⟩
    · refine ne_of_lt ?_
      rcases mem_snoc.mp hmem with hm | rfl
      · exact hseq.2.2 w (by simp [hm]) b (by simp)
      · exact hseq.2.2 a (by simp) b (by simp)
    · exact absurd rfl hne
  · intro r' v hv
    by_cases hr : r' = r
    · subst hr
      obtain ⟨c', hc', hmem⟩ := hv
      obtain rfl := mem_unique hc hc'
      simp only [mem_append, mem_cons, not_mem_nil, or_false] at hmem
      rcases hmem with hm | rfl | rfl
      · exact .inl ⟨v, stored_insert_iff.mpr (.inl ⟨rfl, by simp [hm]⟩), rfl⟩
      · exact .inl ⟨{ v with xmax := none }, stored_insert_iff.mpr (.inl ⟨rfl, by simp⟩), rfl⟩
      · exact .inr (by simp)
    · exact .inl ⟨v, stored_insert_iff.mpr (.inr ⟨hr, hv⟩), rfl⟩

lemma takenAway_stamp (hc : t.rows.get? r = some (c ++ [a]))
    (x : Option TxnId) : TakenAway t (t.withChain r (c ++ [{ a with xmax := x }])) [] := by
  have hsub : ((c ++ [{ a with xmax := x }]).map core).Sublist
      ((c ++ [a]).map core) := by simp [core]
  refine ⟨rfl, rfl, rfl, rfl, rfl, hwf.withChain hc (by simp) hsub, shrinks_withChain hc hsub,
    by simp, by simp, by simp, ?_⟩
  · intro r' v hv
    left
    by_cases hr : r' = r
    · subst hr
      obtain ⟨c', hc', hmem⟩ := hv
      obtain rfl := mem_unique hc hc'
      rcases mem_snoc.mp hmem with hm | rfl
      · exact ⟨v, stored_insert_iff.mpr (.inl ⟨rfl, by simp [hm]⟩), rfl⟩
      · exact ⟨{ v with xmax := x }, stored_insert_iff.mpr (.inl ⟨rfl, by simp⟩), rfl⟩
    · exact ⟨v, stored_insert_iff.mpr (.inr ⟨hr, hv⟩), rfl⟩

omit hwf in
lemma stored_erase_iff {rows : OrderedMap RowId (List Version)} {r' : RowId} :
    Stored (rows.erase r) r' v ↔ r' ≠ r ∧ Stored rows r' v := by
  rw [Stored, Stored, get?_erase]
  by_cases h : r' = r <;> simp [h]

lemma takenAway_removeRow (r : RowId) :
    TakenAway t (t.removeRow r).2 (((t.rows.get? r).getD []).map fun v => (r, v)) := by
  have hmem : ∀ item, item ∈ ((t.rows.get? r).getD []).map (fun v => (r, v)) ↔
      item.1 = r ∧ Stored t.rows r item.2 := by
    rintro ⟨r', v⟩
    rw [Stored]
    cases t.rows.get? r with
    | none => simp
    | some c =>
      simp only [getD_some, mem_map, Prod.mk.injEq, some.injEq, exists_eq_left']
      constructor
      · rintro ⟨w, hw, rfl, rfl⟩
        exact ⟨rfl, hw⟩
      · rintro ⟨rfl, hw⟩
        exact ⟨v, hw, rfl, rfl⟩
  refine ⟨rfl, rfl, rfl, rfl, rfl, hwf.removeRow r, ?_, ?_, ?_, ?_, ?_⟩
  · intro r' v hv
    exact ⟨v, (stored_erase_iff.mp hv).2, rfl⟩
  · intro item hitem
    obtain ⟨hr, hv⟩ := (hmem item).mp hitem
    exact hr ▸ hv
  · intro item hitem w hw
    exact absurd ((hmem item).mp hitem).1 (stored_erase_iff.mp hw).1
  · rw [pairwise_map]
    rcases hc : t.rows.get? r with _ | c
    · simp
    refine (hwf.seq_increasing r c hc).imp ?_
    intro a b hab heq
    exact absurd heq.2 (ne_of_lt hab)
  · intro r' v hv
    by_cases hr : r' = r
    · exact .inr ((hmem (r', v)).mpr ⟨hr, hr ▸ hv⟩)
    · exact .inl ⟨v, stored_erase_iff.mpr ⟨hr, hv⟩, rfl⟩

lemma takenAway_vacuum (horizon : TxnId) (status : TxnId → TxnStatus) :
    TakenAway t (t.vacuum horizon status).2 (t.vacuum horizon status).1 := by
  refine ⟨rfl, rfl, rfl, rfl, rfl, hwf.vacuum horizon status, ?_, ?_, ?_,
    Table.vacuum_distinct hwf, ?_⟩
  · exact fun r v hv => ⟨v, (Table.stored_vacuum_iff.mp hv).1, rfl⟩
  · exact fun item hitem => (Table.mem_vacuum_iff.mp hitem).1
  · intro item hitem w hw hseq
    obtain ⟨hs, hk⟩ := Table.mem_vacuum_iff.mp hitem
    obtain ⟨hsw, hkw⟩ := Table.stored_vacuum_iff.mp hw
    rw [hwf.eq_of_seq hsw hs hseq, hk] at hkw
    cases hkw
  · intro r v hv
    cases hk : Table.keeps horizon status v with
    | true => exact .inl ⟨v, Table.stored_vacuum_iff.mpr ⟨hv, hk⟩, rfl⟩
    | false => exact .inr (Table.mem_vacuum_iff.mpr ⟨hv, hk⟩)

lemma takenAway_undoTable {entry : UndoEntry}
    (h : undoTable txn t entry = some (removed, t')) : TakenAway t t' removed := by
  cases undoTable_cases h with
  | insert T r => exact takenAway_removeRow hwf r
  | update hc => exact takenAway_undoUpdate hwf hc
  | delete hc => exact takenAway_stamp hwf hc none

omit hwf

/-- Taking versions away and then removing their entries keeps the catalogue and the rows, even
when a removal fails. -/
lemma takeAway_sound (hcat : Catalog s) (hrows : Rows s) (ht : s.tables.get? T = some t)
    (h : TakenAway t t' removed) :
    Catalog (removeFromIndexes t.indexes.keys removed (s.withTable T t')).state ∧
      Rows (removeFromIndexes t.indexes.keys removed (s.withTable T t')).state := by
  have hs := withTable_sound hcat hrows ht h.db_eq h.shape_eq h.clustered_eq h.indexes_eq
    h.wellFormed h.shrinks h.nextSeq_eq.ge
  have hafter : (s.withTable T t').tables.get? T = some t' := get?_insert_self _ _ _
  rw [← h.indexes_eq]
  exact (Preserves.forM (fun _ hi => .forM fun item hitem =>
    removeEntry_preserves hafter hi (h.gone item hitem)) (s.withTable T t') ⟨hs, rfl⟩).1

lemma undo_preserves (txn : TxnId) (entry : UndoEntry) :
    Preserves (fun s => Catalog s ∧ Rows s) (undo txn entry) := by
  rintro s ⟨hcat, hrows⟩
  exact undo_rule (fun s => Catalog s ∧ Rows s) ⟨hcat, hrows⟩ fun t _ _ ht hu =>
    takeAway_sound hcat hrows ht (takenAway_undoTable (hrows.wellFormed _ t ht) hu)

lemma undoAll_preserves (txn : TxnId) (writes : List UndoEntry) :
    Preserves (fun s => Catalog s ∧ Rows s) (undoAll txn writes) :=
  .forM fun entry _ => undo_preserves txn entry

lemma vacuumTable_preserves (horizon : TxnId) (status : TxnId → TxnStatus) (T : TableId) :
    Preserves (fun s => Catalog s ∧ Rows s) (vacuumTable horizon status T) := by
  rintro s ⟨hcat, hrows⟩
  rw [vacuumTable, get_bind_apply]
  rcases ht : s.tables.get? T with _ | t
  · exact ⟨hcat, hrows⟩
  have h := takeAway_sound hcat hrows ht
    (takenAway_vacuum (hrows.wellFormed T t ht) horizon status)
  exact h

/-- The statuses after a whole vacuum: the finished transactions below the horizon are forgotten. -/
def Inner.pruned (s : Inner) (horizon : TxnId) : Inner :=
  { s with txns := s.txns.filter fun t state => !(state.isFinished && decide (t < horizon)) }

/-- A vacuum stops in its loop, or goes through every table and forgets transactions. -/
lemma vacuum_outcome (horizon : TxnId) (s : Inner) :
    (∃ e s', s.tables.keys.forM (vacuumTable horizon s.status) s = .error e s' ∧
      vacuum horizon s = .error e s') ∨
    ∃ s', s.tables.keys.forM (vacuumTable horizon s.status) s = .ok () s' ∧
      vacuum horizon s = .ok () (s'.pruned horizon) := by
  rw [vacuum, get_bind_apply]
  cases h : s.tables.keys.forM (vacuumTable horizon s.status) s with
  | error e s' => exact .inl ⟨e, s', rfl, bind_of_error h⟩
  | ok _ s' => exact .inr ⟨s', rfl, bind_of_ok h⟩

lemma vacuum_rule (P : Inner → Prop) (horizon : TxnId)
    (hloop : P (s.tables.keys.forM (vacuumTable horizon s.status) s).state)
    (hdone : ∀ s', s.tables.keys.forM (vacuumTable horizon s.status) s = .ok () s' → P s' →
      P (s'.pruned horizon)) : P (vacuum horizon s).state := by
  rcases vacuum_outcome horizon s with ⟨e, s', hl, hv⟩ | ⟨s', hl, hv⟩ <;> rw [hl] at hloop <;>
    rw [hv]
  · exact hloop
  · exact hdone s' hl hloop

variable {horizon : TxnId}

lemma keeps_of_vacuumLoop {s' : Inner}
    (h : s.tables.keys.forM (vacuumTable horizon s.status) s = .ok () s')
    (ht' : s'.tables.get? T = some t') (hv : Stored t'.rows r v) :
    Table.keeps horizon s.status v = true ∧ ∃ t, s.tables.get? T = some t ∧ Stored t.rows r v := by
  obtain ⟨done, s₁, _, hs₁, htables, _, hok⟩ := vacuumLoop_outcome horizon s.status s.tables.keys
    (keys_nodup _) s
  rw [h] at hs₁
  obtain rfl : s' = s₁ := hs₁
  rw [htables T, map_eq_some_iff] at ht'
  obtain ⟨t, ht, heq⟩ := ht'
  rw [hok h, if_pos (mem_keys_iff.mpr ⟨t, ht⟩)] at heq
  subst heq
  obtain ⟨hs, hk⟩ := Table.stored_vacuum_iff.mp hv
  exact ⟨hk, t, ht, hs⟩

lemma status_of_vacuumLoop {s' : Inner}
    (h : s.tables.keys.forM (vacuumTable horizon s.status) s = .ok () s') : s'.txns = s.txns := by
  obtain ⟨_, s₁, _, hs₁, _, hframe, _⟩ := vacuumLoop_outcome horizon s.status s.tables.keys
    (keys_nodup _) s
  rw [h] at hs₁
  obtain rfl : s' = s₁ := hs₁
  rw [hframe]

lemma vacuum_sound (hcat : Catalog s) (hrows : Rows s) (horizon : TxnId) :
    Catalog (vacuum horizon s).state ∧ Rows (vacuum horizon s).state := by
  refine vacuum_rule (fun s => Catalog s ∧ Rows s) horizon (Preserves.forM
    (fun T _ => vacuumTable_preserves horizon s.status T) s ⟨hcat, hrows⟩) ?_
  rintro s' hl ⟨hc, hr⟩
  refine ⟨{ hc with }, hr.wellFormed, fun T t i ix ht hi hix => ?_⟩
  have h := hr.linked T t i ix ht hi hix
  refine ⟨h.order_eq, h.sorted, h.seq_lt, h.key_eq, fun r v hv _ => h.covers r v hv ?_⟩
  have hk := (keeps_of_vacuumLoop hl ht hv).1
  have hstatus : s'.status = s.status := by
    funext x
    rw [Inner.status, Inner.status, status_of_vacuumLoop hl]
  rw [hstatus]
  simp only [Table.keeps, Table.orphaned, Bool.and_eq_true, Bool.not_eq_true_eq_eq_false,
    beq_eq_false_iff_ne, ne_eq] at hk
  exact hk.2

end VaubanDB
