import VaubanDB.Memory.Registry

/-!
What the calls leave as it was.

`without x c` is the chain `c` without the writes of `x`.  A write of `x` and its undo keep it,
for every row, and keep the definitions of the tables and indexes (`Framed`).  A vacuum drops
versions from some chains and keeps the definitions (`Swept`).
-/

namespace VaubanDB

open MemoryStorage Option EStateM

/-! ### Chains without a transaction -/

def Version.without (x : TxnId) (v : Version) : Version :=
  if v.xmax = some x then { v with xmax := none } else v

def without (x : TxnId) (c : List Version) : List Version :=
  (c.filter fun v => decide (v.xmin ≠ x)).map (Version.without x)

variable {c : List Version}

section Without

variable {x : TxnId} {a b : Version}

lemma without_append (x : TxnId) (c d : List Version) :
    without x (c ++ d) = without x c ++ without x d := by
  simp [without]

lemma without_singleton_of_creator (h : b.xmin = x) : without x [b] = [] := by
  simp [without, h]

lemma without_stamp (h : a.xmax = none ∨ a.xmax = some x) :
    without x [{ a with xmax := some x }] = without x [a] := by
  obtain ⟨xmin, xmax, data, seq⟩ := a
  rcases h with rfl | rfl <;> by_cases hx : xmin = x <;> simp [without, Version.without, hx]

lemma without_reset (h : a.xmax = some x) :
    without x [{ a with xmax := none }] = without x [a] := by
  by_cases hx : a.xmin = x <;> simp [without, Version.without, h, hx]

lemma without_eq_self (h : ∀ v ∈ c, v.xmin ≠ x ∧ v.xmax ≠ some x) : without x c = c := by
  have hkeep : (c.filter fun v => decide (v.xmin ≠ x)) = c :=
    List.filter_eq_self.mpr fun v hv => by simpa using (h v hv).1
  rw [without, hkeep]
  calc c.map (Version.without x) = c.map id := List.map_congr_left fun v hv => if_neg (h v hv).2
    _ = c := List.map_id c

end Without

/-! ### Frames -/

/-- The versions of a row, none when it does not exist. -/
def Inner.chainOf (s : Inner) (T : TableId) (r : RowId) : List Version :=
  ((s.tables.get? T).bind fun t => t.rows.get? r).getD []

def Table.chainOf (t : Table) (r : RowId) : List Version := (t.rows.get? r).getD []

variable {t : Table} {T : TableId} {s : Inner}

lemma Inner.chainOf_eq (ht : s.tables.get? T = some t)
    (r : RowId) : s.chainOf T r = t.chainOf r := by
  rw [chainOf, ht]
  rfl

lemma mem_chainOf_iff {r : RowId} {v : Version} : v ∈ t.chainOf r ↔ Stored t.rows r v := by
  rw [Table.chainOf, Stored]
  cases t.rows.get? r <;> simp

/-- What defines a table, its rows left out. -/
def Table.header (t : Table) : DbId × TableShape × Option KeyOrder × OrderedMap IndexId Unit :=
  (t.db, t.shape, t.clustered, t.indexes)

/-- What defines an index, its entries left out. -/
def Index.header (ix : Index) : TableId × IndexShape × KeyOrder := (ix.table, ix.shape, ix.order)

/-- The same tables and indexes are defined. -/
structure SameCatalog (s s' : Inner) : Prop where
  tables : ∀ T, (s'.tables.get? T).map Table.header = (s.tables.get? T).map Table.header
  indexes : ∀ i, (s'.indexes.get? i).map Index.header = (s.indexes.get? i).map Index.header

namespace SameCatalog

variable {s s₁ s' : Inner}

lemma refl (s : Inner) : SameCatalog s s := ⟨fun _ => rfl, fun _ => rfl⟩

lemma trans (h : SameCatalog s s₁) (h' : SameCatalog s₁ s') : SameCatalog s s' :=
  ⟨fun T => (h'.tables T).trans (h.tables T), fun i => (h'.indexes i).trans (h.indexes i)⟩

variable (h : SameCatalog s s')
include h

lemma exists_table (ht : s.tables.get? T = some t) :
    ∃ t', s'.tables.get? T = some t' ∧ t'.header = t.header := by
  have := h.tables T
  rwa [ht, map_some, map_eq_some_iff] at this

lemma exists_index {i : IndexId} {ix : Index} (hix : s.indexes.get? i = some ix) :
    ∃ ix', s'.indexes.get? i = some ix' ∧ ix'.header = ix.header := by
  have := h.indexes i
  rwa [hix, map_some, map_eq_some_iff] at this

lemma table_none (ht : s.tables.get? T = none) : s'.tables.get? T = none := by
  have := h.tables T
  rwa [ht, map_none, map_eq_none_iff] at this

end SameCatalog

lemma LocalChange.sameCatalog {s' : Inner} {t' : Table}
    (h : LocalChange s s' T t t') (hcat : Catalog s) : SameCatalog s s' where
  tables := by
    intro T'
    by_cases hT : T' = T
    · rw [hT, h.get?_after, h.before, map_some, map_some, Table.header,
        Table.header, h.db_eq, h.shape_eq, h.clustered_eq, h.indexes_eq]
    · rw [h.get?_other hT]
  indexes := by
    intro i
    by_cases hi : i ∈ t.indexes.keys
    · obtain ⟨ix, hix, _⟩ := hcat.listed T t i h.before hi
      obtain ⟨entries, hix'⟩ := h.mine i hi ix hix
      rw [hix, hix']
      rfl
    · rw [h.others i hi]

/-- Everything but the writes of `x` is as it was. -/
structure Framed (x : TxnId) (s s' : Inner) : Prop where
  catalog : SameCatalog s s'
  chains : ∀ T r, without x (s'.chainOf T r) = without x (s.chainOf T r)

namespace Framed

variable {x : TxnId} {s s₁ s' : Inner}

lemma refl (x : TxnId) (s : Inner) : Framed x s s := ⟨.refl s, fun _ _ => rfl⟩

lemma trans (h : Framed x s s₁) (h' : Framed x s₁ s') : Framed x s s' :=
  ⟨h.catalog.trans h'.catalog, fun T r => (h'.chains T r).trans (h.chains T r)⟩

lemma of_eq (htables : s'.tables = s.tables) (hindexes : s'.indexes = s.indexes) : Framed x s s' :=
  ⟨⟨fun _ => by rw [htables], fun _ => by rw [hindexes]⟩,
    fun _ _ => by rw [Inner.chainOf, Inner.chainOf, htables]⟩

lemma of_withTxns {txns : OrderedMap TxnId TxnState} (h : Framed x { s with txns } s') :
    Framed x s s' :=
  (show Framed x s { s with txns } from of_eq rfl rfl).trans h

lemma of_localChange {t' : Table} (h : LocalChange s s' T t t')
    (hcat : Catalog s) (hrows : ∀ r, without x (t'.chainOf r) = without x (t.chainOf r)) :
    Framed x s s' where
  catalog := h.sameCatalog hcat
  chains := by
    intro T' r
    by_cases hT : T' = T
    · rw [hT, Inner.chainOf_eq h.get?_after, Inner.chainOf_eq h.before]
      exact hrows r
    · rw [Inner.chainOf, Inner.chainOf, h.get?_other hT]

/-- A chain that is replaced by one with the same versions of the others. -/
lemma withChain {r : RowId} {c' : List Version} (hc : t.rows.get? r = some c)
    (h : without x c' = without x c) (r' : RowId) :
    without x ((t.withChain r c').chainOf r') = without x (t.chainOf r') := by
  rw [Table.chainOf, Table.chainOf, Table.withChain, OrderedMap.get?_insert]
  split_ifs with hr
  · rw [hr, hc]
    exact h
  · rfl

end Framed

/-- A call of a transaction leaves everything but its writes, unless it undoes some of them. -/
theorem Call.framed_or_undoes (hcat : Catalog s) (hrows : Rows s) {call : Call}
    {x : TxnId} (hx : call.txn? = some x) :
    Framed x s (call.after s) ∨ call = .rollback x ∨ ∃ sp, call = .rollbackTo x sp := by
  have heff := call.effect hcat hrows
  generalize call.after s = s' at heff ⊢
  cases heff with
  | idle _ => exact .inl (.refl x s)
  | redefined hc _ => cases call <;> cases hc <;> cases hx
  | inserted ht _ hplan =>
    obtain rfl := some.inj hx
    refine .inl (.of_localChange (written_localChange ht hplan rfl rfl rfl rfl) hcat fun r => ?_)
    rw [Table.chainOf, Table.chainOf, Table.withRow, OrderedMap.get?_insert]
    split_ifs with hr
    · cases hc : (_ : Table).rows.get? r with
      | none => exact without_singleton_of_creator rfl
      | some c => exact absurd ((hrows.wellFormed _ _ ht).row_lt r c hc) (by lia)
    · rfl
  | @updated _ T r row t c a planned ht hc hxmax _ _ hplan =>
    obtain rfl := some.inj hx
    refine .inl (.of_localChange (written_localChange ht hplan rfl rfl rfl rfl) hcat fun r' => ?_)
    refine Framed.withChain hc ?_ r'
    rw [List.append_cons, without_append, without_append, without_append,
      without_stamp (.inl hxmax),
      without_singleton_of_creator (b := ⟨_, none, row, t.nextSeq⟩) rfl, List.append_nil]
  | deleted ht hc hxmax _ _ =>
    obtain rfl := some.inj hx
    refine .inl (.of_localChange ⟨ht, rfl, rfl, rfl, rfl, rfl, rfl, rfl, rfl, rfl, fun _ _ => rfl,
      fun _ _ ix hix => ⟨ix.entries, hix⟩⟩ hcat fun r => Framed.withChain hc ?_ r)
    rw [without_append, without_append, without_stamp (.inl hxmax)]
  | marked _ _ | committed _ => exact .inl (.of_eq rfl rfl)
  | rolledBack _ => exact .inr (.inl (congrArg _ (some.inj hx)))
  | @returned y sp state pos mark _ _ _ _ =>
    exact .inr (.inr ⟨sp, congrArg (rollbackTo · sp) (some.inj hx)⟩)
  | vacuumed horizon => cases hx

/-! ### Vacuum -/

/-- Some chains have lost the versions that are not to be kept, nothing else has changed. -/
structure Swept (keep : Version → Bool) (s s' : Inner) : Prop where
  catalog : SameCatalog s s'
  chains : ∀ T r, s'.chainOf T r = s.chainOf T r ∨ s'.chainOf T r = (s.chainOf T r).filter keep

lemma SameCatalog.removeFromIndexes (s₀ : Inner) (ids : List IndexId)
    (removed : List (RowId × Version)) :
    Preserves (SameCatalog s₀) (MemoryStorage.removeFromIndexes ids removed) := by
  refine .forM fun i _ => .forM fun item _ s h => ?_
  rw [removeEntry, get_bind_apply]
  rcases hix : s.indexes.get? i with _ | ix
  · exact h
  simp only
  cases hrem : ix.removeVersion item.1 item.2 with
  | error e => exact h
  | ok ix' =>
    rw [liftExcept_ok_bind_apply, set_apply]
    refine h.trans ⟨fun _ => rfl, fun j => ?_⟩
    rw [Result.state_ok, OrderedMap.get?_insert]
    split_ifs with hj
    · rw [hj, hix]
      rcases Index.removeVersion_cases hrem with rfl | ⟨_, _, _, _, _, rfl⟩ <;> rfl
    · rfl

namespace Swept

variable {s s₁ s' : Inner} {keep : Version → Bool}

lemma refl (s : Inner) : Swept keep s s := ⟨.refl s, fun _ _ => .inl rfl⟩

lemma trans (h : Swept keep s s₁) (h' : Swept keep s₁ s') : Swept keep s s' := by
  refine ⟨h.catalog.trans h'.catalog, fun T r => ?_⟩
  rcases h.chains T r with h | h <;> rcases h'.chains T r with h' | h' <;> simp [h, h']

lemma vacuumTable (s₀ : Inner) (horizon : TxnId) (status : TxnId → TxnStatus) (T : TableId) :
    Preserves (Swept (Table.keeps horizon status) s₀)
      (MemoryStorage.vacuumTable horizon status T) := by
  intro s h
  cases ht : s.tables.get? T with
  | none =>
    rw [vacuumTable_of_none ht]
    exact h
  | some t =>
    rw [vacuumTable_eq ht]
    have htable : SameCatalog s
        { s with tables := s.tables.insert T (t.vacuum horizon status).2 } := by
      refine ⟨fun T' => ?_, fun _ => rfl⟩
      rw [OrderedMap.get?_insert]
      split_ifs with hT
      · rw [hT, ht]
        rfl
      · rfl
    refine h.trans ⟨SameCatalog.removeFromIndexes s _ _ _ htable, fun T' r => ?_⟩
    rw [removeFromIndexes_frame, Inner.chainOf, Inner.chainOf, OrderedMap.get?_insert]
    split_ifs with hT
    · right
      rw [hT, ht, bind_some, bind_some, Table.vacuum_get?]
      cases t.rows.get? r with
      | none => rfl
      | some c =>
        rw [map_some, filter_some, getD_some]
        split_ifs with hempty
        · rfl
        · rw [getD_none]
          simpa using hempty
    · exact .inl rfl

lemma vacuum (s : Inner) (horizon : TxnId) : Swept (Table.keeps horizon s.status) s
    (MemoryStorage.vacuum horizon s).state :=
  vacuum_rule (Swept (Table.keeps horizon s.status) s) horizon
    (Preserves.forM (fun T _ => vacuumTable s horizon s.status T) s (.refl s))
    fun _ _ h => h.trans ⟨⟨fun _ => rfl, fun _ => rfl⟩, fun _ _ => .inl rfl⟩

end Swept

end VaubanDB
