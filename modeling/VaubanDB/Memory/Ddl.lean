import VaubanDB.Memory.Sound

/-!
Creation and removal of databases, tables and indexes keep the catalogue and the rows.

Identifiers are handed out by counters that only grow, so a new object never takes the place
of an old one; a table leaves with its indexes, and a database with its tables.
-/

namespace VaubanDB

open MemoryStorage OrderedMap EStateM Option

/-! ### Outcomes -/

lemma nextId_eq_ok {bits counter id next : ℕ} {what : String}
    (h : nextId bits counter what = .ok (id, next)) : id = counter ∧ next = counter + 1 := by
  rw [nextId] at h
  split_ifs at h
  · cases h
    exact ⟨rfl, rfl⟩
  · cases h

lemma nextId_uncorrupted (bits counter : ℕ) (what : String) :
    Uncorrupted (nextId bits counter what) := by
  rw [nextId]
  split_ifs
  · exact .ok _
  · exact .bug _

section Outcomes

variable (s : Inner)

lemma createDatabase_outcome (name : String) :
    (∃ e, createDatabase name s = .error e s ∧ e.isCorruption = false) ∨
    createDatabase name s = .ok s.nextDbId { s with
      nextDbId := s.nextDbId + 1
      databases := s.databases.insert s.nextDbId ⟨name, .empty⟩ } := by
  rw [createDatabase, get_bind_apply]
  rcases h : nextId 32 s.nextDbId "database" with e | p
  · exact .inl ⟨e, rfl, nextId_uncorrupted _ _ _ e h⟩
  obtain ⟨id, next⟩ := p
  obtain ⟨rfl, rfl⟩ := nextId_eq_ok h
  exact .inr rfl

lemma dropDatabase_outcome (db : DbId) :
    (∃ e, dropDatabase db s = .error e s ∧ e.isCorruption = false) ∨
    ∃ D, s.databases.get? db = some D ∧ dropDatabase db s = .ok ()
      (D.tables.keys.foldl forgetTable { s with databases := s.databases.erase db }) := by
  rw [dropDatabase, get_bind_apply]
  cases h : s.databases.get? db with
  | none => exact .inl ⟨_, rfl, rfl⟩
  | some D => exact .inr ⟨D, rfl, rfl⟩

lemma createTable_outcome (db : DbId) (shape : TableShape) :
    (∃ e, createTable db shape s = .error e s ∧ e.isCorruption = false) ∨
    ∃ clustered D, Inner.checkShape shape = .ok clustered ∧ s.databases.get? db = some D ∧
      createTable db shape s = .ok s.nextTableId { s with
        nextTableId := s.nextTableId + 1
        databases := s.databases.insert db { D with tables := D.tables.insert s.nextTableId () }
        tables := s.tables.insert s.nextTableId (Table.new db shape clustered) } := by
  rw [createTable]
  cases hshape : Inner.checkShape shape with
  | error e =>
    refine .inl ⟨e, rfl, ?_⟩
    rw [Inner.checkShape] at hshape
    split_ifs at hshape
    · exact Uncorrupted.bug _ e hshape
    · split at hshape
      · exact Uncorrupted.map _ (KeyOrder.new_uncorrupted _ _ _) e hshape
      · cases hshape
  | ok clustered =>
    rw [liftExcept_ok_bind_apply, get_bind_apply]
    rcases hdb : s.databases.get? db with _ | D
    · exact .inl ⟨_, rfl, rfl⟩
    simp only
    rcases h : nextId 32 s.nextTableId "table" with e | p
    · exact .inl ⟨e, rfl, nextId_uncorrupted _ _ _ e h⟩
    obtain ⟨id, next⟩ := p
    obtain ⟨rfl, rfl⟩ := nextId_eq_ok h
    exact .inr ⟨clustered, D, rfl, rfl, rfl⟩

lemma dropTable_outcome (T : TableId) : (∃ e, dropTable T s = .error e s ∧ e.isCorruption = false) ∨
    ∃ t, s.tables.get? T = some t ∧ dropTable T s = .ok () (forgetTable { s with
      databases := s.databases.modify t.db fun D => { D with tables := D.tables.erase T } } T) := by
  rw [dropTable, get_bind_apply]
  cases h : s.tables.get? T with
  | none => exact .inl ⟨_, rfl, rfl⟩
  | some t => exact .inr ⟨t, rfl, rfl⟩

lemma createIndex_outcome (T : TableId) (shape : IndexShape) :
    (∃ e, createIndex T shape s = .error e s ∧ s.prepareIndex T shape = .error e) ∨
    ∃ t id next ix, s.tables.get? T = some t ∧ s.prepareIndex T shape = .ok (id, next, ix) ∧
      createIndex T shape s = .ok id { s with
        tables := s.tables.insert T { t with indexes := t.indexes.insert id () }
        nextIndexId := next
        indexes := s.indexes.insert id ix } := by
  rw [createIndex, get_bind_apply]
  rcases h : s.prepareIndex T shape with e | p
  · exact .inl ⟨e, rfl, rfl⟩
  obtain ⟨id, next, ix⟩ := p
  obtain ⟨t, ht, _⟩ := Except.bind_eq_ok_iff.mp h
  have ht := Inner.table_eq_ok_iff.mp ht
  refine .inr ⟨t, id, next, ix, ht, rfl, ?_⟩
  rw [liftExcept_ok_bind_apply]
  simp only [ht]
  rfl

lemma dropIndex_outcome (i : IndexId) : (∃ e, dropIndex i s = .error e s ∧ e.isCorruption = false) ∨
    ∃ ix, s.indexes.get? i = some ix ∧ dropIndex i s = .ok () { s with
      indexes := s.indexes.erase i
      tables := s.tables.modify ix.table fun t => { t with indexes := t.indexes.erase i } } := by
  rw [dropIndex, get_bind_apply]
  cases h : s.indexes.get? i with
  | none => exact .inl ⟨_, rfl, rfl⟩
  | some ix => exact .inr ⟨ix, rfl, rfl⟩

end Outcomes

/-! ### A table leaves with its indexes -/

variable {i : IndexId}

lemma get?_foldl_erase {ids : List IndexId} {m : OrderedMap IndexId Index} {ix : Index} :
    (ids.foldl erase m).get? i = some ix ↔ i ∉ ids ∧ m.get? i = some ix := by
  induction ids generalizing m with
  | nil => simp
  | cons j ids ih =>
    rw [List.foldl_cons, ih, get?_erase_eq_some, List.mem_cons, not_or]
    tauto

variable {s : Inner} {T T' : TableId}

lemma forgetTable_tables {t : Table} :
    (forgetTable s T).tables.get? T' = some t ↔ T' ≠ T ∧ s.tables.get? T' = some t := by
  rw [forgetTable]
  cases h : s.tables.get? T with
  | none =>
    refine ⟨fun ht => ⟨?_, ht⟩, And.right⟩
    rintro rfl
    rw [h] at ht
    cases ht
  | some t => exact get?_erase_eq_some

lemma forgetTable_frame (s : Inner) (T : TableId) : forgetTable s T = { s with
    tables := (forgetTable s T).tables
    indexes := (forgetTable s T).indexes } := by
  rw [forgetTable]
  cases s.tables.get? T <;> rfl

lemma forgetTable_indexes (hcat : Catalog s) (T : TableId) {ix : Index} :
    (forgetTable s T).indexes.get? i = some ix ↔ s.indexes.get? i = some ix ∧ ix.table ≠ T := by
  rw [forgetTable]
  cases h : s.tables.get? T with
  | none =>
    refine ⟨fun hix => ⟨hix, ?_⟩, fun hix => hix.1⟩
    rintro rfl
    obtain ⟨t, ht, _⟩ := hcat.owned i ix hix
    rw [h] at ht
    cases ht
  | some t =>
    simp only [get?_foldl_erase]
    constructor
    · rintro ⟨hmem, hix⟩
      refine ⟨hix, ?_⟩
      rintro rfl
      obtain ⟨t', ht', hi⟩ := hcat.owned i ix hix
      obtain rfl := mem_unique ht' h
      exact hmem hi
    · rintro ⟨hix, hne⟩
      refine ⟨fun hmem => ?_, hix⟩
      obtain ⟨ix', hix', htable⟩ := hcat.listed T t i h hmem
      obtain rfl := mem_unique hix hix'
      exact hne htable

lemma forgetTable_sound (hcat : Catalog s) (hrows : Rows s)
    (hT : ∀ d D, s.databases.get? d = some D → T ∉ D.tables.keys) :
    Catalog (forgetTable s T) ∧ Rows (forgetTable s T) := by
  have hframe := forgetTable_frame s T
  have hindex : ∀ {i ix}, (forgetTable s T).indexes.get? i = some ix ↔
      s.indexes.get? i = some ix ∧ ix.table ≠ T := forgetTable_indexes hcat T
  generalize hs' : forgetTable s T = s' at hframe hindex
  have htables : ∀ {T' t}, s'.tables.get? T' = some t ↔ T' ≠ T ∧ s.tables.get? T' = some t := by
    rw [← hs']
    exact forgetTable_tables
  obtain ⟨hnextDb, hnext, hnextIndex, hdatabases, htxns⟩ : s'.nextDbId = s.nextDbId ∧
      s'.nextTableId = s.nextTableId ∧ s'.nextIndexId = s.nextIndexId ∧
      s'.databases = s.databases ∧ s'.status = s.status := by
    rw [hframe]
    exact ⟨rfl, rfl, rfl, rfl, rfl⟩
  refine ⟨⟨?_, ?_, ?_, ?_, ?_, ?_, ?_⟩, ⟨?_, ?_⟩⟩
  · rw [hdatabases, hnextDb]
    exact hcat.db_lt
  · exact fun T' t ht => hnext ▸ hcat.table_lt T' t (htables.mp ht).2
  · exact fun i ix hix => hnextIndex ▸ hcat.index_lt i ix (hindex.mp hix).1
  · intro i ix hix
    obtain ⟨hix, hne⟩ := hindex.mp hix
    obtain ⟨t, ht, hi⟩ := hcat.owned i ix hix
    exact ⟨t, htables.mpr ⟨hne, ht⟩, hi⟩
  · intro T' t i ht hi
    obtain ⟨hne, ht⟩ := htables.mp ht
    obtain ⟨ix, hix, htable⟩ := hcat.listed T' t i ht hi
    exact ⟨ix, hindex.mpr ⟨hix, htable ▸ hne⟩, htable⟩
  · intro d D T' hD hT'
    rw [hdatabases] at hD
    obtain ⟨t, ht, hdb⟩ := hcat.contained d D T' hD hT'
    refine ⟨t, htables.mpr ⟨?_, ht⟩, hdb⟩
    rintro rfl
    exact hT d D hD hT'
  · exact fun T' t order ht => hcat.clustered T' t order (htables.mp ht).2
  · exact fun T' t ht => hrows.wellFormed T' t (htables.mp ht).2
  · intro T' t i ix ht hi hix
    rw [htxns]
    exact hrows.linked T' t i ix (htables.mp ht).2 hi (hindex.mp hix).1

/-! ### The rows are left alone -/

/-- What a change of the catalogue leaves: a table keeps its rows, or is new and empty; an index
keeps its entries, or has just been built as `new` allows. -/
structure Redefined (new : TableId → IndexShape → Prop) (s s' : Inner) : Prop where
  txns_eq : s'.txns = s.txns
  counter_le : s.nextTableId ≤ s'.nextTableId
  tables : ∀ T t', s'.tables.get? T = some t' → (T = s.nextTableId ∧ t'.rows = .empty) ∨
    ∃ t, s.tables.get? T = some t ∧ t'.rows = t.rows ∧ t'.nextRowId = t.nextRowId
  indexes : ∀ T t' i ix, s'.tables.get? T = some t' → i ∈ t'.indexes.keys →
    s'.indexes.get? i = some ix → ∃ t, s.tables.get? T = some t ∧
      ((i ∈ t.indexes.keys ∧ s.indexes.get? i = some ix) ∨
        ∃ shape next, new T shape ∧ s.prepareIndex T shape = .ok (i, next, ix))

variable {new : TableId → IndexShape → Prop}

lemma Redefined.refl (s : Inner) : Redefined new s s :=
  ⟨rfl, le_rfl, fun _ t ht => .inr ⟨t, ht, rfl, rfl⟩,
    fun _ t _ _ ht hi hix => ⟨t, ht, .inl ⟨hi, hix⟩⟩⟩

/-- Some tables and indexes are gone. -/
structure Reduced (s s' : Inner) : Prop where
  txns_eq : s'.txns = s.txns
  counter_eq : s'.nextTableId = s.nextTableId
  tables : ∀ T t, s'.tables.get? T = some t → s.tables.get? T = some t
  indexes : ∀ i ix, s'.indexes.get? i = some ix → s.indexes.get? i = some ix

lemma Reduced.trans {s₁ s₂ : Inner} (h : Reduced s s₁) (h' : Reduced s₁ s₂) : Reduced s s₂ :=
  ⟨h'.txns_eq.trans h.txns_eq, h'.counter_eq.trans h.counter_eq,
    fun T t ht => h.tables T t (h'.tables T t ht),
    fun i ix hix => h.indexes i ix (h'.indexes i ix hix)⟩

lemma Reduced.redefined {s' : Inner} (h : Reduced s s') : Redefined new s s' :=
  ⟨h.txns_eq, h.counter_eq.ge, fun T t ht => .inr ⟨t, h.tables T t ht, rfl, rfl⟩,
    fun T t i ix ht hi hix => ⟨t, h.tables T t ht, .inl ⟨hi, h.indexes i ix hix⟩⟩⟩

lemma reduced_databases (s : Inner) (databases : OrderedMap DbId Database) :
    Reduced s { s with databases } :=
  ⟨rfl, rfl, fun _ _ h => h, fun _ _ h => h⟩

lemma reduced_forgetTable (s : Inner) (T : TableId) : Reduced s (forgetTable s T) := by
  refine ⟨by rw [forgetTable_frame], by rw [forgetTable_frame],
    fun T' t ht => (forgetTable_tables.mp ht).2, fun i ix hix => ?_⟩
  rw [forgetTable] at hix
  cases h : s.tables.get? T with
  | none =>
    rw [h] at hix
    exact hix
  | some t =>
    rw [h] at hix
    exact (get?_foldl_erase.mp hix).2

lemma reduced_foldl_forgetTable (ids : List TableId) (s : Inner) :
    Reduced s (ids.foldl forgetTable s) := by
  induction ids generalizing s with
  | nil => exact ⟨rfl, rfl, fun _ _ h => h, fun _ _ h => h⟩
  | cons T ids ih => exact (reduced_forgetTable s T).trans (ih _)

lemma foldl_forgetTable_sound (hcat : Catalog s) (hrows : Rows s) (ids : List TableId)
    (hids : ∀ T ∈ ids, ∀ d D, s.databases.get? d = some D → T ∉ D.tables.keys) :
    Catalog (ids.foldl forgetTable s) ∧ Rows (ids.foldl forgetTable s) := by
  induction ids generalizing s with
  | nil => exact ⟨hcat, hrows⟩
  | cons T ids ih =>
    obtain ⟨hc, hr⟩ := forgetTable_sound hcat hrows (hids T (by simp))
    refine ih hc hr ?_
    intro T' hT' d D hD
    rw [forgetTable_frame] at hD
    exact hids T' (by simp [hT']) d D hD

/-! ### The catalogue and the rows are kept -/

/-- A change of the catalogue leaves a sound one. -/
structure Redefines (new : TableId → IndexShape → Prop) (s s' : Inner) : Prop where
  catalog : Catalog s'
  rows : Rows s'
  redefined : Redefined new s s'

section Redefines

variable {s : Inner} (hcat : Catalog s) (hrows : Rows s) {new : TableId → IndexShape → Prop}
include hcat hrows

lemma createDatabase_redefines (name : String) : Redefines new s (createDatabase name s).state := by
  rcases createDatabase_outcome s name with ⟨e, h, _⟩ | h <;> rw [h]
  · exact ⟨hcat, hrows, .refl s⟩
  · refine ⟨⟨?_, hcat.table_lt, hcat.index_lt, hcat.owned, hcat.listed, ?_, hcat.clustered⟩,
      { hrows with }, { Redefined.refl s with }⟩
    · intro d D hD
      rcases get?_insert_eq_some.mp hD with ⟨rfl, _⟩ | ⟨_, hD⟩
      · exact Nat.lt_succ_self _
      · exact Nat.lt_succ_of_lt (hcat.db_lt d D hD)
    · intro d D T hD hT
      rcases get?_insert_eq_some.mp hD with ⟨_, rfl⟩ | ⟨_, hD⟩
      · cases hT
      · exact hcat.contained d D T hD hT

lemma dropDatabase_redefines (db : DbId) : Redefines new s (dropDatabase db s).state := by
  rcases dropDatabase_outcome s db with ⟨e, h, _⟩ | ⟨D, hD, h⟩ <;> rw [h]
  · exact ⟨hcat, hrows, .refl s⟩
  · have hcat' : Catalog { s with databases := s.databases.erase db } :=
      ⟨fun d D' hD' => hcat.db_lt d D' (get?_erase_eq_some.mp hD').2, hcat.table_lt,
        hcat.index_lt, hcat.owned, hcat.listed, fun d D' T hD' hT =>
          hcat.contained d D' T (get?_erase_eq_some.mp hD').2 hT, hcat.clustered⟩
    have hred := (reduced_databases s (s.databases.erase db)).trans
      (reduced_foldl_forgetTable D.tables.keys _)
    refine (foldl_forgetTable_sound hcat' { hrows with } _ ?_).elim (⟨·, ·, hred.redefined⟩)
    intro T hT d D' hD' hmem
    obtain ⟨hne, hD'⟩ := get?_erase_eq_some.mp hD'
    obtain ⟨t, ht, hdb⟩ := hcat.contained db D T hD hT
    obtain ⟨t', ht', hdb'⟩ := hcat.contained d D' T hD' hmem
    obtain rfl := mem_unique ht ht'
    exact hne (hdb'.symm.trans hdb)

lemma dropTable_redefines (T : TableId) : Redefines new s (dropTable T s).state := by
  rcases dropTable_outcome s T with ⟨e, h, _⟩ | ⟨t, ht, h⟩ <;> rw [h]
  · exact ⟨hcat, hrows, .refl s⟩
  · -- a database of after is one of before, without the table if it owned it
    have hmodify : ∀ d D', (s.databases.modify t.db fun D =>
        { D with tables := D.tables.erase T }).get? d = some D' →
        ∃ D, s.databases.get? d = some D ∧ ∀ T', T' ∈ D'.tables.keys →
          T' ∈ D.tables.keys ∧ (d = t.db → T' ≠ T) := by
      intro d D' hD'
      obtain ⟨D, hD, rfl⟩ := get?_modify_eq_some.mp hD'
      refine ⟨D, hD, fun T' hT' => ?_⟩
      split_ifs at hT' with hd
      · obtain ⟨hne, hT'⟩ := mem_keys_erase.mp hT'
        exact ⟨hT', fun _ => hne⟩
      · exact ⟨hT', fun hd' => absurd hd' hd⟩
    have hcat' : Catalog { s with databases := s.databases.modify t.db fun D =>
        { D with tables := D.tables.erase T } } := by
      refine ⟨?_, hcat.table_lt, hcat.index_lt, hcat.owned, hcat.listed, ?_, hcat.clustered⟩
      · intro d D' hD'
        obtain ⟨D, hD, _⟩ := hmodify d D' hD'
        exact hcat.db_lt d D hD
      · intro d D' T' hD' hT'
        obtain ⟨D, hD, hsub⟩ := hmodify d D' hD'
        exact hcat.contained d D T' hD (hsub T' hT').1
    have hred := fun databases => (reduced_databases s databases).trans (reduced_forgetTable _ T)
    refine (forgetTable_sound hcat' { hrows with } ?_).elim (⟨·, ·, (hred _).redefined⟩)
    intro d D' hD' hT
    obtain ⟨D, hD, hsub⟩ := hmodify d D' hD'
    obtain ⟨hmem, hne⟩ := hsub T hT
    obtain ⟨t', ht', hdb⟩ := hcat.contained d D T hD hmem
    obtain rfl := mem_unique ht ht'
    exact hne hdb.symm rfl

lemma createTable_redefines (db : DbId) (shape : TableShape) :
    Redefines new s (createTable db shape s).state := by
  rcases createTable_outcome s db shape with ⟨e, h, _⟩ | ⟨clustered, D, hshape, hD, h⟩ <;> rw [h]
  · exact ⟨hcat, hrows, .refl s⟩
  · simp only [Result.state_ok]
    have hkeep : ∀ {T t}, s.tables.get? T = some t →
        (s.tables.insert s.nextTableId (Table.new db shape clustered)).get? T = some t :=
      fun ht => get?_insert_eq_some.mpr (.inr ⟨ne_of_lt (hcat.table_lt _ _ ht), ht⟩)
    refine ⟨⟨?_, ?_, hcat.index_lt, ?_, ?_, ?_, ?_⟩, ⟨?_, ?_⟩, rfl, Nat.le_succ _, ?_, ?_⟩
    · intro d D' hD'
      rcases get?_insert_eq_some.mp hD' with ⟨rfl, _⟩ | ⟨_, hD'⟩
      · exact hcat.db_lt d D hD
      · exact hcat.db_lt d D' hD'
    · intro T t ht
      rcases get?_insert_eq_some.mp ht with ⟨rfl, _⟩ | ⟨_, ht⟩
      · exact Nat.lt_succ_self _
      · exact Nat.lt_succ_of_lt (hcat.table_lt T t ht)
    · intro i ix hix
      obtain ⟨t, ht, hi⟩ := hcat.owned i ix hix
      exact ⟨t, hkeep ht, hi⟩
    · intro T t i ht hi
      rcases get?_insert_eq_some.mp ht with ⟨_, rfl⟩ | ⟨_, ht⟩
      · cases hi
      · exact hcat.listed T t i ht hi
    · intro d D' T hD' hT
      rcases get?_insert_eq_some.mp hD' with ⟨rfl, rfl⟩ | ⟨_, hD'⟩
      · rcases mem_keys_insert.mp hT with rfl | hT
        · exact ⟨_, get?_insert_self _ _ _, rfl⟩
        · obtain ⟨t, ht, hdb⟩ := hcat.contained d D T hD hT
          exact ⟨t, hkeep ht, hdb⟩
      · obtain ⟨t, ht, hdb⟩ := hcat.contained d D' T hD' hT
        exact ⟨t, hkeep ht, hdb⟩
    · intro T t order ht horder
      rcases get?_insert_eq_some.mp ht with ⟨_, rfl⟩ | ⟨_, ht⟩
      · have horder : clustered = some order := horder
        subst horder
        rw [Inner.checkShape] at hshape
        split_ifs at hshape
        · cases hshape
        · split at hshape
          · obtain ⟨order', hnew, heq⟩ := Except.map_eq_ok_iff.mp hshape
            cases heq
            exact KeyOrder.new_position_lt hnew
          · cases hshape
      · exact hcat.clustered T t order ht horder
    · intro T t ht
      rcases get?_insert_eq_some.mp ht with ⟨_, rfl⟩ | ⟨_, ht⟩
      · exact .new db shape clustered
      · exact hrows.wellFormed T t ht
    · intro T t i ix ht hi hix
      rcases get?_insert_eq_some.mp ht with ⟨_, rfl⟩ | ⟨_, ht⟩
      · cases hi
      · exact hrows.linked T t i ix ht hi hix
    · intro T t' ht'
      rcases get?_insert_eq_some.mp ht' with ⟨hT, rfl⟩ | ⟨_, ht'⟩
      · exact .inl ⟨hT, rfl⟩
      · exact .inr ⟨t', ht', rfl, rfl⟩
    · intro T t' i ix ht' hi hix
      rcases get?_insert_eq_some.mp ht' with ⟨_, rfl⟩ | ⟨_, ht'⟩
      · cases hi
      · exact ⟨t', ht', .inl ⟨hi, hix⟩⟩

/-- Every table is kept, up to the indexes it lists. -/
lemma reindexed {tables : OrderedMap TableId Table} {indexes : OrderedMap IndexId Index}
    {next : IndexId} (f : TableId → OrderedMap IndexId Unit → OrderedMap IndexId Unit)
    (hget : ∀ T, tables.get? T =
      (s.tables.get? T).map fun t => { t with indexes := f T t.indexes })
    (hlt : ∀ i ix, indexes.get? i = some ix → i < next)
    (howned : ∀ i ix, indexes.get? i = some ix →
      ∃ t, s.tables.get? ix.table = some t ∧ i ∈ (f ix.table t.indexes).keys)
    (hlisted : ∀ T t i, s.tables.get? T = some t → i ∈ (f T t.indexes).keys →
      ∃ ix, indexes.get? i = some ix ∧ ix.table = T ∧ Linked s.status t ix ∧
        ((i ∈ t.indexes.keys ∧ s.indexes.get? i = some ix) ∨
          ∃ shape next, new T shape ∧ s.prepareIndex T shape = .ok (i, next, ix))) :
    Redefines new s { s with tables, indexes, nextIndexId := next } := by
  have hback : ∀ {T t'}, tables.get? T = some t' →
      ∃ t, s.tables.get? T = some t ∧ { t with indexes := f T t.indexes } = t' := fun ht => by
    rwa [hget, map_eq_some_iff] at ht
  have hkeep : ∀ {T t}, s.tables.get? T = some t →
      tables.get? T = some { t with indexes := f T t.indexes } := fun ht => by
    rw [hget, ht, map_some]
  refine ⟨⟨hcat.db_lt, ?_, hlt, ?_, ?_, ?_, ?_⟩, ⟨?_, ?_⟩, rfl, le_rfl, ?_, ?_⟩
  · intro T t' ht'
    obtain ⟨t, ht, -⟩ := hback ht'
    exact hcat.table_lt T t ht
  · intro i ix hix
    obtain ⟨t, ht, hi⟩ := howned i ix hix
    exact ⟨_, hkeep ht, hi⟩
  · intro T t' i ht' hi
    obtain ⟨t, ht, rfl⟩ := hback ht'
    obtain ⟨ix, hix, htable, -⟩ := hlisted T t i ht hi
    exact ⟨ix, hix, htable⟩
  · intro d D T hD hT
    obtain ⟨t, ht, hdb⟩ := hcat.contained d D T hD hT
    exact ⟨_, hkeep ht, hdb⟩
  · intro T t' order ht' horder
    obtain ⟨t, ht, rfl⟩ := hback ht'
    exact hcat.clustered T t order ht horder
  · intro T t' ht'
    obtain ⟨t, ht, rfl⟩ := hback ht'
    exact { hrows.wellFormed T t ht with }
  · intro T t' i ix ht' hi hix
    obtain ⟨t, ht, rfl⟩ := hback ht'
    obtain ⟨ix', hix', -, hlink, -⟩ := hlisted T t i ht hi
    obtain rfl := mem_unique hix hix'
    exact { hlink with }
  · intro T t' ht'
    obtain ⟨t, ht, rfl⟩ := hback ht'
    exact .inr ⟨t, ht, rfl, rfl⟩
  · intro T t' i ix ht' hi hix
    obtain ⟨t, ht, rfl⟩ := hback ht'
    obtain ⟨ix', hix', -, -, hindex⟩ := hlisted T t i ht hi
    obtain rfl := mem_unique hix hix'
    exact ⟨t, ht, hindex⟩

lemma createIndex_redefines {shape : IndexShape} (hnew : new T shape) :
    Redefines new s (createIndex T shape s).state := by
  rcases createIndex_outcome s T shape with ⟨e, h, _⟩ | ⟨t, id, next, ix, ht, hprep, h⟩ <;> rw [h]
  · exact ⟨hcat, hrows, .refl s⟩
  · obtain ⟨rfl, rfl, htable, _, hlink, _, _⟩ :=
      prepareIndex_spec ht (hrows.wellFormed T t ht) hprep
    refine reindexed hcat hrows (fun T' indexes =>
      if T' = T then indexes.insert s.nextIndexId () else indexes) ?_ ?_ ?_ ?_
    · intro T'
      rw [get?_insert]
      split_ifs with hT
      · rw [hT, ht, map_some]
      · exact map_id'.symm
    · intro i ix' hix'
      rcases get?_insert_eq_some.mp hix' with ⟨rfl, _⟩ | ⟨_, hix'⟩
      · exact Nat.lt_succ_self _
      · exact Nat.lt_succ_of_lt (hcat.index_lt i ix' hix')
    · intro i ix' hix'
      rcases get?_insert_eq_some.mp hix' with ⟨rfl, rfl⟩ | ⟨_, hix'⟩
      · exact ⟨t, htable ▸ ht, by simp [htable, mem_keys_insert]⟩
      · obtain ⟨t₀, ht₀, hi⟩ := hcat.owned i ix' hix'
        refine ⟨t₀, ht₀, ?_⟩
        split_ifs
        · exact mem_keys_insert.mpr (.inr hi)
        · exact hi
    · intro T' t₀ i ht₀ hi
      have hi : (T' = T ∧ i = s.nextIndexId) ∨ i ∈ t₀.indexes.keys := by
        split_ifs at hi with hT
        · simpa [hT, mem_keys_insert] using hi
        · exact .inr hi
      rcases hi with ⟨rfl, rfl⟩ | hi
      · obtain rfl := mem_unique ht ht₀
        exact ⟨ix, get?_insert_self _ _ _, htable, hlink, .inr ⟨shape, _, hnew, hprep⟩⟩
      · obtain ⟨ix', hix', htable'⟩ := hcat.listed T' t₀ i ht₀ hi
        have hne : i ≠ s.nextIndexId := ne_of_lt (hcat.index_lt _ _ hix')
        exact ⟨ix', (get?_insert_ne _ _ hne).trans hix', htable',
          hrows.linked T' t₀ i ix' ht₀ hi hix', .inl ⟨hi, hix'⟩⟩

lemma dropIndex_redefines (i : IndexId) : Redefines new s (dropIndex i s).state := by
  rcases dropIndex_outcome s i with ⟨e, h, _⟩ | ⟨ix, hix, h⟩ <;> rw [h]
  · exact ⟨hcat, hrows, .refl s⟩
  · refine reindexed hcat hrows (fun T indexes =>
      if T = ix.table then indexes.erase i else indexes) ?_ ?_ ?_ ?_
    · intro T
      rw [get?_modify]
      split_ifs
      · rfl
      · exact map_id'.symm
    · exact fun j jx hjx => hcat.index_lt j jx (get?_erase_eq_some.mp hjx).2
    · intro j jx hjx
      obtain ⟨hji, hjx⟩ := get?_erase_eq_some.mp hjx
      obtain ⟨t, ht, hj⟩ := hcat.owned j jx hjx
      refine ⟨t, ht, ?_⟩
      split_ifs
      · exact mem_keys_erase.mpr ⟨hji, hj⟩
      · exact hj
    · intro T t j ht hj
      have hj : (T = ix.table → j ≠ i) ∧ j ∈ t.indexes.keys := by
        split_ifs at hj with hT
        · simpa [hT, mem_keys_erase] using hj
        · exact ⟨(absurd · hT), hj⟩
      obtain ⟨jx, hjx, htable⟩ := hcat.listed T t j ht hj.2
      refine ⟨jx, get?_erase_eq_some.mpr ⟨?_, hjx⟩, htable, hrows.linked T t j jx ht hj.2 hjx,
        .inl ⟨hj.2, hjx⟩⟩
      rintro rfl
      obtain rfl := mem_unique hix hjx
      exact hj.1 htable.symm rfl

end Redefines

end VaubanDB
