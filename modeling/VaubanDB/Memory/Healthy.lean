import VaubanDB.Memory.Keyed

/-!
No call of a keyed run reports a corruption.

The engine reports a corruption in three places: an identifier of the catalogue that leads
nowhere, a row too short for a key, and an index entry whose version is gone.  `Catalog` rules
out the first, the arity of the stored rows the second, and `Exact` the third: every entry of
an index is the entry of a stored version.
-/

namespace VaubanDB

open MemoryStorage KeyOrder

/-! ### Searches in an index -/

variable {es : List IndexEntry}

namespace Index

variable {ix : Index} {rows : OrderedMap RowId (List Version)} {status : TxnId → TxnStatus}

lemma lowerBound_uncorrupted (ix : Index) (pre : List Value) : Uncorrupted (ix.lowerBound pre) :=
  partitionPoint_uncorrupted fun e _ => .map _ (ix.order.comparePrefix_uncorrupted e.key pre)

lemma upperBound_uncorrupted (ix : Index) (pre : List Value) : Uncorrupted (ix.upperBound pre) :=
  partitionPoint_uncorrupted fun e _ => .map _ (ix.order.comparePrefix_uncorrupted e.key pre)

lemma positionFor_uncorrupted (ix : Index) (key : List Value) (r : RowId) (n : ℕ) :
    Uncorrupted (ix.positionFor key r n) :=
  partitionPoint_uncorrupted fun e _ => .map _ (ix.order.comparePrefix_uncorrupted e.key key)

lemma checkBound_uncorrupted (ix : Index) (b : Bound) : Uncorrupted (ix.checkBound b) := by
  rw [checkBound]
  cases b.key? with
  | none => exact .ok ()
  | some p => exact ix.order.checkPrefix_uncorrupted p

lemma ends_uncorrupted (ix : Index) (b : Bound) :
    Uncorrupted (ix.startOf b) ∧ Uncorrupted (ix.stopOf b) := by
  cases b with
  | unbounded => exact ⟨.ok _, .ok _⟩
  | included p => exact ⟨ix.lowerBound_uncorrupted p, ix.upperBound_uncorrupted p⟩
  | excluded p => exact ⟨ix.upperBound_uncorrupted p, ix.lowerBound_uncorrupted p⟩

lemma positions_uncorrupted (ix : Index) (range : KeyRange) : Uncorrupted (ix.positions range) := by
  cases range with
  | full => exact .ok _
  | point k =>
    exact .bind (ix.order.checkPrefix_uncorrupted k) fun _ _ =>
      .bind (ix.lowerBound_uncorrupted k) fun _ _ =>
        .bind (ix.upperBound_uncorrupted k) fun _ _ => .ok _
  | between lo hi =>
    exact .bind (ix.checkBound_uncorrupted lo) fun _ _ =>
      .bind (ix.checkBound_uncorrupted hi) fun _ _ =>
        .bind (ix.ends_uncorrupted lo).1 fun _ _ =>
          .bind (ix.ends_uncorrupted hi).2 fun _ _ => .ok _

def Resolves (rows : OrderedMap RowId (List Version)) (es : List IndexEntry) : Prop :=
  ∀ e ∈ es, ∃ v, findVersion rows e.row e.version = some v

lemma Resolves.sublist {es' : List IndexEntry} (h : Resolves rows es)
    (hsub : es'.Sublist es) : Resolves rows es' :=
  fun e he => h e (hsub.subset he)

lemma Resolves.versionOf (h : Resolves rows es) {e : IndexEntry}
    (he : e ∈ es) (ix : Index) : Uncorrupted (ix.versionOf rows e) := by
  obtain ⟨v, hv⟩ := h e he
  rw [versionOf_eq_ok_iff.mpr hv]
  exact .ok v

variable {skipRow : Option RowId} {txn : Option TxnId}

lemma anyLive_uncorrupted
    (h : Resolves rows es) : Uncorrupted (ix.anyLive rows txn status skipRow es) := by
  induction es with
  | nil => exact .ok false
  | cons e es ih =>
    have hrest := ih (h.sublist (List.sublist_cons_self e es))
    rw [anyLive]
    split_ifs
    · exact hrest
    · refine .bind (h.versionOf List.mem_cons_self ix) fun v _ => ?_
      split_ifs
      · exact .ok true
      · exact hrest

lemma groupDuplicate_uncorrupted {liveRow : Option RowId}
    (h : Resolves rows es) : Uncorrupted (ix.groupDuplicate rows status liveRow es) := by
  induction es generalizing liveRow with
  | nil => exact .ok false
  | cons e es ih =>
    have hrest : ∀ liveRow, Uncorrupted (ix.groupDuplicate rows status liveRow es) :=
      fun _ => ih (h.sublist (List.sublist_cons_self e es))
    unfold groupDuplicate
    refine .bind (h.versionOf List.mem_cons_self ix) fun v _ => ?_
    split_ifs
    · exact hrest _
    · cases liveRow with
      | none => exact hrest _
      | some row =>
        dsimp only
        split_ifs
        · exact .ok true
        · exact hrest _

lemma duplicateFrom_uncorrupted (h : Resolves rows ix.entries) (fuel start : ℕ) :
    Uncorrupted (ix.duplicateFrom rows status fuel start) := by
  induction fuel generalizing start with
  | zero => exact .ok none
  | succ fuel ih =>
    rw [duplicateFrom]
    cases ix.entries[start]? with
    | none => exact .ok none
    | some first =>
      refine .bind (ix.upperBound_uncorrupted first.key) fun stop _ => ?_
      refine .bind (groupDuplicate_uncorrupted (h.sublist (slice_sublist _ _ _))) fun found _ => ?_
      split_ifs
      · exact .ok _
      · exact ih _

end Index

variable {ix : Index} {t : Table}

lemma Exact.resolves {ok : Column → Value → Bool} (h : Exact ok t ix) :
    Index.Resolves t.rows ix.entries := by
  intro e he
  obtain ⟨data, ⟨v, hv, hseq, _⟩, _⟩ := (h.lists e).mp he
  exact hseq ▸ findVersion_isSome hv

/-! ### Reads -/

section Reads

variable {ok : Column → Value → Bool} {s : Inner} {committed : Set TxnId}
  {logs : TxnId → List UndoEntry} {m : Moments}

lemma listTables_uncorrupted (hcat : Catalog s) (db : DbId) : Uncorrupted (s.listTables db) := by
  rw [Inner.listTables]
  rcases hdb : s.databases.get? db with _ | D
  · exact .bug _
  refine .mapM fun T hT => ?_
  obtain ⟨t, ht, _⟩ := hcat.contained db D T hdb hT
  simp only [ht]
  exact .ok _

lemma listIndexes_uncorrupted (hcat : Catalog s) (T : TableId) : Uncorrupted (s.listIndexes T) := by
  refine .bind (Inner.table_uncorrupted T) fun t ht => .mapM fun i hi => ?_
  obtain ⟨ix, hix, _⟩ := hcat.listed T t i (Inner.table_eq_ok_iff.mp ht) hi
  simp only [hix]
  exact .ok _

lemma scan_uncorrupted (hcat : Catalog s) (hrows : Rows s) (snap : Snapshot) (T : TableId) :
    Uncorrupted (s.scan snap T) := by
  refine .bind (Inner.table_uncorrupted T) fun t ht => ?_
  have ht := Inner.table_eq_ok_iff.mp ht
  rcases hclustered : t.clustered with _ | order
  · exact .ok _
  refine sortRows_uncorrupted fun item hitem => extract_isOk fun c hc => ?_
  obtain ⟨⟨r, chain⟩, hentry, hvisible⟩ := List.mem_filterMap.mp hitem
  obtain ⟨v, hv, rfl⟩ := Option.map_eq_some_iff.mp hvisible
  have hchain : t.rows.get? r = some chain := OrderedMap.get?_eq_some_iff.mpr hentry
  rw [(hrows.wellFormed T t ht).arity_eq r v ⟨chain, hchain, List.mem_of_find?_eq_some hv⟩]
  exact hcat.clustered T t order ht hclustered c hc

lemma collect_uncorrupted {rows : OrderedMap RowId (List Version)}
    (h : Index.Resolves rows es) (snap : Snapshot) (i : IndexId) :
    Uncorrupted (s.collect snap i rows es) := by
  induction es with
  | nil => exact .ok []
  | cons e es ih =>
    obtain ⟨v, hv⟩ := h e List.mem_cons_self
    rw [Inner.collect, hv]
    refine .bind (ih (h.sublist (List.sublist_cons_self e es))) fun rest _ => ?_
    split_ifs <;> exact .ok _

lemma seek_uncorrupted (hcat : Catalog s) (hp : Precise ok s committed logs m) (snap : Snapshot)
    (i : IndexId) (range : KeyRange) (dir : Direction) : Uncorrupted (s.seek snap i range dir) := by
  rw [Inner.seek, Inner.index]
  rcases hix : s.indexes.get? i with _ | ix
  · exact .bind (.bug _) fun _ h => by cases h
  obtain ⟨t, ht, hi⟩ := hcat.owned i ix hix
  refine .bind (.ok ix) fun ix' h' => ?_
  cases h'
  simp only [ht]
  refine .bind (ix.positions_uncorrupted range) fun p _ => .bind ?_ fun _ _ => .ok _
  have hresolves := (hp.exact _ t i ix ht hi hix).resolves
  exact collect_uncorrupted (hresolves.sublist (slice_sublist _ _ _)) snap i

end Reads

/-! ### Writes -/

section Writes

variable {ok : Column → Value → Bool} {s : Inner} {committed : Set TxnId}
  {logs : TxnId → List UndoEntry} {m : Moments}

lemma planEntries_uncorrupted (hcat : Catalog s) (hrows : Rows s)
    (hp : Precise ok s committed logs m) {T : TableId}
    (ht : s.tables.get? T = some t) {row : Row} (hrow : row.length = t.arity) (txn : TxnId)
    (id : RowId) (seq : ℕ) (replacing : Option RowId) :
    Uncorrupted (s.planEntries txn T row id seq replacing) := by
  rw [Inner.planEntries, Inner.table_eq_ok_iff.mpr ht]
  refine .bind (.ok t) fun t' h' => ?_
  cases h'
  refine .mapM fun i hi => ?_
  obtain ⟨ix, hix, _⟩ := hcat.listed T t i ht hi
  obtain ⟨key, hkey⟩ := (hrows.linked T t i ix ht hi hix).extract_isOk hrow
  have hdup : Uncorrupted (s.isDuplicate ix key t.rows txn replacing) := by
    rw [Inner.isDuplicate]
    split_ifs
    · have hresolves := (hp.exact T t i ix ht hi hix).resolves
      exact .bind (ix.lowerBound_uncorrupted key) fun _ _ =>
        .bind (ix.upperBound_uncorrupted key) fun _ _ =>
          Index.anyLive_uncorrupted (hresolves.sublist (slice_sublist _ _ _))
    · exact .ok false
  rw [Inner.planEntry, hix]
  refine .bind (hkey ▸ .ok key) fun key' hkey' => ?_
  obtain rfl : key = key' := Except.ok.inj (hkey.symm.trans hkey')
  refine .bind hdup fun duplicate _ => ?_
  split_ifs
  · intro e he
    cases he
    rfl
  · exact .bind (ix.positionFor_uncorrupted key id seq) fun _ _ => .ok _

variable {item : RowId × Version}

lemma indexVersion_uncorrupted
    (h : ∃ k, ix.order.extract item.2.data = .ok k) : Uncorrupted (s.indexVersion ix item) := by
  obtain ⟨key, hkey⟩ := h
  rw [Inner.indexVersion]
  split_ifs
  · exact .ok ix
  · exact .bind (hkey ▸ .ok key) fun key' _ =>
      .bind (ix.positionFor_uncorrupted key' _ _) fun _ _ => .ok _

lemma indexVersion_order {ix' : Index}
    (h : s.indexVersion ix item = .ok ix') : ix'.order = ix.order := by
  rw [Inner.indexVersion] at h
  split_ifs at h
  · cases h
    rfl
  · obtain ⟨key, _, h⟩ := Except.bind_eq_ok_iff.mp h
    obtain ⟨pos, _, h⟩ := Except.bind_eq_ok_iff.mp h
    cases h
    rfl

lemma prepareIndex_uncorrupted (hrows : Rows s) (T : TableId) (shape : IndexShape) :
    Uncorrupted (s.prepareIndex T shape) := by
  refine .bind (Inner.table_uncorrupted T) fun t ht => ?_
  have hwf := hrows.wellFormed T t (Inner.table_eq_ok_iff.mp ht)
  refine .bind (new_uncorrupted _ _ _) fun order horder => ?_
  cases shape.included.find? fun inc => decide (t.arity ≤ inc) with
  | some inc => exact .bug _
  | none =>
    refine .bind (nextId_uncorrupted _ _ _) fun p _ => .bind ?_ fun ix hix => .bind ?_ ?_
    · refine .foldlM (P := fun ix => ix.order = order) rfl ?_ ?_
      · rintro ix rfl ⟨r, v⟩ hv
        refine indexVersion_uncorrupted (extract_isOk fun c hc => ?_)
        rw [hwf.arity_eq r v (mem_versionsOf_iff.mp hv)]
        exact new_position_lt horder c hc
      · exact fun ix hix item _ ix' h => (indexVersion_order h).trans hix
    · have hnew : Built s [] (Index.new T shape order) :=
        ⟨Index.sorted_new _ _ _, fun e => by simp [Index.new]⟩
      obtain ⟨hb, _⟩ := hnew.foldlM (by simpa using versionsOf_distinct hwf) hix
      rw [Inner.duplicateKey]
      split_ifs
      · refine Index.duplicateFrom_uncorrupted (fun e he => ?_) _ _
        obtain ⟨v, hv, _, hseq, _⟩ := (hb.mem_iff e).mp he
        exact hseq ▸ findVersion_isSome (mem_versionsOf_iff.mp hv)
      · exact .ok none
    · intro duplicate _
      cases duplicate with
      | none => exact .ok _
      | some key =>
        intro e he
        cases he
        rfl

end Writes

/-! ### Calls -/

namespace Call

/-- The computation never fails with a corruption from `s`. -/
def Sane {α : Type} (m : Engine α) (s : Inner) : Prop :=
  ∀ e s', m s = .error e s' → e.isCorruption = false

variable {s : Inner}

lemma Sane.of_ok {α β : Type} {m : Engine α} {f : α → β} {s' : Inner} {a : α}
    (h : m s = .ok a s') : Sane (f <$> m) s := by
  intro e s₁ he
  simp [Functor.map, EStateM.map, h] at he

lemma Sane.of_error {α β : Type} {m : Engine α} {f : α → β} {s' : Inner} {e : SqlError}
    (h : m s = .error e s') (he : e.isCorruption = false) : Sane (f <$> m) s := by
  intro e₁ s₁ h₁
  simp only [Functor.map, EStateM.map, h] at h₁
  cases h₁
  exact he

lemma Sane.reading {read : Inner → SqlResult Answer} (h : Uncorrupted (read s)) :
    Sane (Call.reading read) s := by
  intro e s' he
  rw [Call.reading, EStateM.get_bind_apply] at he
  exact h e (EStateM.liftExcept_eq_error_iff.mp he).1

variable {ok : Column → Value → Bool} (hok : ∀ c v, ok c v = true → v.selfComparable = true)
include hok

/-- No call of a live transaction in a tracked state reports a corruption. -/
theorem sane_of_tracked {σ : Site} (h : Tracked ok σ) (c : Call)
    (hlive : ∀ t, c.txn? = some t → t ∉ σ.history.ended) : Sane c.exec σ.inner := by
  obtain ⟨hcat, hrows, hreg, m, hp⟩ := h
  have hl := hreg.ledger
  cases c with
  | createDatabase name =>
    rcases createDatabase_outcome σ.inner name with ⟨_, h, he⟩ | h
    · exact .of_error h he
    · exact .of_ok h
  | dropDatabase db =>
    rcases dropDatabase_outcome σ.inner db with ⟨_, h, he⟩ | ⟨_, _, h⟩
    · exact .of_error h he
    · exact .of_ok h
  | databases => exact .reading (.map _ (.ok _))
  | createTable db shape =>
    rcases createTable_outcome σ.inner db shape with ⟨_, h, he⟩ | ⟨_, _, _, _, h⟩
    · exact .of_error h he
    · exact .of_ok h
  | dropTable table =>
    rcases dropTable_outcome σ.inner table with ⟨_, h, he⟩ | ⟨_, _, h⟩
    · exact .of_error h he
    · exact .of_ok h
  | tables db => exact .reading (.map _ (listTables_uncorrupted hcat db))
  | createIndex table shape =>
    rcases createIndex_outcome σ.inner table shape with ⟨e, h, he⟩ | ⟨_, _, _, _, _, _, h⟩
    · exact .of_error h (prepareIndex_uncorrupted hrows table shape e he)
    · exact .of_ok h
  | dropIndex index =>
    rcases dropIndex_outcome σ.inner index with ⟨_, h, he⟩ | ⟨_, _, h⟩
    · exact .of_error h he
    · exact .of_ok h
  | indexes table => exact .reading (.map _ (listIndexes_uncorrupted hcat table))
  | insert txn table row =>
    rcases insert_outcome σ.inner txn table row with ⟨e, h, he⟩ | ⟨_, _, _, _, _, _, h⟩
    · refine .of_error h (Bool.eq_false_iff.mpr fun hcorrupt => ?_)
      obtain ⟨t, r, n, ht, hlen, hplan⟩ := he hcorrupt
      exact (planEntries_uncorrupted hcat hrows hp ht hlen txn r n none).elim hplan hcorrupt
    · exact .of_ok h
  | update txn table id row =>
    rcases update_outcome σ.inner txn table id row with
      ⟨e, h, he⟩ | ⟨_, _, _, _, _, _, _, _, _, _, _, h⟩
    · refine .of_error h (Bool.eq_false_iff.mpr fun hcorrupt => ?_)
      obtain ⟨t, n, ht, hlen, hplan⟩ := he hcorrupt
      exact (planEntries_uncorrupted hcat hrows hp ht hlen txn id n (some id)).elim hplan hcorrupt
    · exact .of_ok h
  | delete txn table id =>
    rcases delete_outcome σ.inner txn table id with ⟨_, h, he⟩ | ⟨_, _, _, _, _, _, _, _, h⟩
    · exact .of_error h he
    · exact .of_ok h
  | get | latestVersion =>
    exact .reading (.map _ (.bind (Inner.table_uncorrupted _) fun _ _ => .ok _))
  | scan snap table => exact .reading (.map _ (scan_uncorrupted hcat hrows snap table))
  | seek snap index range dir =>
    exact .reading (.map _ (seek_uncorrupted hcat hp snap index range dir))
  | commit txn =>
    rcases commit_outcome σ.inner txn with ⟨_, h, _⟩ | ⟨_, h⟩
    · exact .of_error h rfl
    · exact .of_ok h
  | rollback txn =>
    obtain ⟨s', h, _⟩ := hp.rollback hok hl hcat hrows (hlive txn rfl)
    exact .of_ok h
  | savepoint txn =>
    rcases savepoint_outcome (hl.stateOf_of_live (hlive txn rfl)) with ⟨_, h⟩ | h
    · exact .of_error h rfl
    · exact .of_ok h
  | rollbackTo txn sp =>
    rcases hp.rollbackTo hok hl hcat hrows txn sp with ⟨_, h, he⟩ | ⟨_, h, _⟩
    · exact .of_error h he
    · exact .of_ok h
  | checkpoint => exact .of_ok (m := MemoryStorage.checkpoint) rfl
  | vacuum horizon =>
    obtain ⟨s', h, _⟩ := hp.vacuum hok hl hcat hrows horizon
    exact .of_ok h

end Call

end VaubanDB
