import VaubanDB.Memory.Writes

/-!
Runs whose key values satisfy a condition.

`Call.Keyed ok` asks of the calls that put values into key columns that the values satisfy `ok`.
When `ok` implies that a value compares with itself, every rollback and every vacuum of such a run
succeeds, and the logs, the chains and the indexes agree in every state (`Site.Reachable.tracked`).
-/

namespace VaubanDB

open MemoryStorage Table Option

def Call.Keyed (ok : Column → Value → Bool) (s : Inner) : Call → Prop
  | .insert _ T row => Precise.RowOk ok s T row
  | .update _ T _ row => Precise.RowOk ok s T row
  | .createIndex T shape => ∀ t order, s.tables.get? T = some t →
      KeyOrder.new "index key" shape.columns t.shape = .ok order →
      ∀ r v, Stored t.rows r v → order.HoldsOn ok v.data
  | _ => True

instance (ok : Column → Value → Bool) (order : KeyOrder) (row : Row) :
    Decidable (order.HoldsOn ok row) :=
  decidable_of_iff (order.columns.all fun c => row[c.position]?.all (ok c)) (by
    simp [KeyOrder.HoldsOn, Option.all_eq_true])

instance (ok : Column → Value → Bool) (s : Inner) (T : TableId) (row : Row) :
    Decidable (Precise.RowOk ok s T row) :=
  decidable_of_iff ((s.tables.get? T).all fun t => t.indexes.keys.all fun i =>
    (s.indexes.get? i).all fun ix => decide (ix.order.HoldsOn ok row)) (by
      simp only [Precise.RowOk, Option.all_eq_true, List.all_eq_true, decide_eq_true_eq]
      exact ⟨fun h t i ix ht hi hix => h t ht i hi ix hix, fun h t ht i hi ix hix =>
        h t i ix ht hi hix⟩)

/-- The condition is tested by evaluation, so that the runs of the examples are. -/
instance (ok : Column → Value → Bool) (s : Inner) : (c : Call) → Decidable (c.Keyed ok s)
  | .insert _ T row | .update _ T _ row => inferInstanceAs (Decidable (Precise.RowOk ok s T row))
  | .createIndex T shape =>
    decidable_of_iff ((s.tables.get? T).all fun t =>
      match KeyOrder.new "index key" shape.columns t.shape with
      | .error _ => true
      | .ok order => t.rows.entries.all fun p => p.2.all fun v =>
        decide (order.HoldsOn ok v.data)) (by
        simp only [Call.Keyed, Option.all_eq_true]
        refine ⟨fun h t order ht horder r v hstored => ?_, fun h t ht => ?_⟩
        · obtain ⟨c, hc, hv⟩ := hstored
          have hall := h t ht
          simp only [horder, List.all_eq_true, decide_eq_true_eq] at hall
          exact hall (r, c) (OrderedMap.get?_eq_some_iff.mp hc) v hv
        · cases horder : KeyOrder.new "index key" shape.columns t.shape with
          | error e => rfl
          | ok order =>
            simp only [List.all_eq_true, decide_eq_true_eq]
            exact fun p hp v hv => h t order ht horder p.1 v
              ⟨p.2, OrderedMap.get?_eq_some_iff.mpr hp, hv⟩)
  | .createDatabase _ | .dropDatabase _ | .databases | .createTable .. | .dropTable _ | .tables _
  | .dropIndex _ | .indexes _ | .delete .. | .get .. | .scan .. | .seek .. | .latestVersion ..
  | .commit _ | .rollback _ | .savepoint _ | .rollbackTo .. | .checkpoint | .vacuum _ =>
    .isTrue trivial

variable {x : TxnId}

namespace Precise

variable {ok : Column → Value → Bool} {s : Inner} {h : History} {m : Moments} {s' : Inner}

lemma of_txns {committed : Set TxnId} {logs : TxnId → List UndoEntry}
    (hp : Precise ok s committed logs m) {committed' : Set TxnId}
    {logs' : TxnId → List UndoEntry} (htables : s'.tables = s.tables)
    (hindexes : s'.indexes = s.indexes) (hcounter : s'.nextTableId = s.nextTableId)
    (hsub : ∀ x ∈ committed, x ∈ committed') (hnil : ∀ x ∈ committed', logs' x = [])
    (hlogs : ∀ x ∉ committed', logs' x = logs x) : Precise ok s' committed' logs' m := by
  have hmem : ∀ x, ∀ e ∈ logs' x, e ∈ logs x := by
    intro x e he
    by_cases hx : x ∈ committed'
    · rw [hnil x hx] at he
      cases he
    · rwa [hlogs x hx] at he
  have hbefore : ∀ {T r a r' b}, Before committed m T r a r' b →
      Before committed' m T r a r' b := fun hb =>
    hb.imp_left fun ⟨w, hw, heq⟩ => ⟨w, hsub w hw, heq⟩
  refine ⟨?_, hnil, ?_, ?_, ?_, ?_⟩
  · rw [htables, hindexes]
    exact hp.exact
  · rw [hcounter]
    exact fun x e he => hp.table_lt x e (hmem x e he)
  · rw [htables]
    exact fun x e he => hp.row_exists x e (hmem x e he)
  · rw [htables]
    intro x hx T t r c ht hc
    rw [hlogs x hx]
    exact hp.tails x (fun hc => hx (hsub x hc)) T t r c ht hc
  · rw [htables, hindexes]
    intro T t i ix ht hi hix hu r r' a b k k' hne ha hb hk hk' hkeys
    exact (hp.apart T t i ix ht hi hix hu r r' a b k k' hne ha hb hk hk' hkeys).imp hbefore hbefore

/-! ### Transactions -/

lemma logs_insertTxn (s : Inner) (x : TxnId) (st : TxnState) :
    Inner.logs { s with txns := s.txns.insert x st } = Function.update s.logs x st.writes := by
  funext y
  by_cases hyx : y = x
  · subst hyx
    simp [Inner.logs, Inner.stateOf]
  · rw [Function.update_of_ne hyx]
    simp only [Inner.logs, Inner.stateOf, OrderedMap.get?_insert_ne _ _ hyx]

lemma logs_congr {s : Inner} (htxns : s'.txns = s.txns) : s'.logs = s.logs := by
  funext x
  rw [Inner.logs, Inner.logs, Inner.stateOf, Inner.stateOf, htxns]

variable (hp : Precise ok s h.committed s.logs m)
include hp

lemma commit (hx : x ∉ h.ended) :
    Precise ok { s with txns := s.txns.insert x (.finished .committed) }
      (h.after (.commit x)).committed
      (Inner.logs { s with txns := s.txns.insert x (.finished .committed) }) m := by
  rw [logs_insertTxn]
  refine hp.of_txns rfl rfl rfl (fun y hy => .inr hy) ?_ ?_
  · rintro y (rfl | hyc)
    · exact Function.update_self _ _ _
    · by_cases hyx : y = x
      · subst hyx
        exact Function.update_self _ _ _
      · rw [Function.update_of_ne hyx]
        exact hp.committed_nil y hyc
  · intro y hy
    exact Function.update_of_ne (fun hyx => hy (.inl hyx)) _ _

lemma savepoint {marks : List (SavepointId × ℕ)} {n : SavepointId} : Precise ok { s with
      txns := s.txns.insert x { s.stateOf x with savepoints := marks }
      nextSavepointId := n } h.committed
      (Inner.logs { s with
        txns := s.txns.insert x { s.stateOf x with savepoints := marks }
        nextSavepointId := n }) m := by
  have hlogs : Inner.logs
      { s with txns := s.txns.insert x { s.stateOf x with savepoints := marks } } =
      s.logs := by
    rw [logs_insertTxn]
    exact Function.update_eq_self x s.logs
  exact hp.of_txns rfl rfl rfl (fun _ h => h)
    (fun y hy => (congrFun hlogs y).trans (hp.committed_nil y hy)) fun y _ => congrFun hlogs y

section Undo

variable (hok : ∀ c v, ok c v = true → v.selfComparable = true)
include hok

variable (hl : Ledger s.txns h)
include hl

lemma rollback (hcat : Catalog s) (hrows : Rows s) {txn : TxnId} (hx : txn ∉ h.ended) :
    ∃ s', MemoryStorage.rollback txn s = .ok () s' ∧ Framed txn s s' ∧
      Precise ok s' h.committed s'.logs m := by
  rcases rollback_outcome s txn with ⟨_, _, hstatus⟩ | ⟨_, ho⟩
  · exact absurd (hl.stateOf_of_live hx) hstatus
  · obtain ⟨hc, hr⟩ := insertTxn_sound hcat hrows txn (.finished .aborted) fun h => absurd rfl h
    have hp₁ : Precise ok { s with txns := s.txns.insert txn (.finished .aborted) } h.committed
        s.logs m := hp.of_txns rfl rfl rfl (fun _ h => h) hp.committed_nil fun _ _ => rfl
    obtain ⟨s', hres, htxns, hframed, hp'⟩ := hp₁.undoAll hok hc hr
      (fun hm => hx (hl.ended txn hm)) (show s.logs txn = [] ++ s.logs txn from rfl)
    refine ⟨s', ho.trans hres, hframed.of_withTxns, ?_⟩
    rwa [logs_congr htxns, logs_insertTxn]

lemma rollbackTo (hcat : Catalog s) (hrows : Rows s) (txn : TxnId) (sp : SavepointId) :
    (∃ e, MemoryStorage.rollbackTo txn sp s = .error e s ∧ e.isCorruption = false) ∨
    ∃ s', MemoryStorage.rollbackTo txn sp s = .ok () s' ∧ Framed txn s s' ∧
      Precise ok s' h.committed s'.logs m := by
  rcases rollbackTo_outcome sp with ⟨e, ho, hcor⟩ | ⟨state, pos, mark, hs, hstatus, _, _, ho⟩
  · refine .inl ⟨e, ho, Bool.eq_false_iff.mpr fun he => ?_⟩
    obtain ⟨st, p, hst, hp, hlt⟩ := hcor he
    exact absurd (hl.marks_le txn st hst p hp) (not_le.mpr hlt)
  · have hx := hl.live txn state hs hstatus
    have hlog : s.logs txn = state.writes.take mark ++ state.writes.drop mark := by
      rw [List.take_append_drop, Inner.logs, Inner.stateOf, hs]
      rfl
    obtain ⟨hc, hr⟩ := insertTxn_sound hcat hrows txn { state with
      savepoints := state.savepoints.take (pos + 1)
      writes := state.writes.take mark } fun _ => hl.stateOf_of_live hx
    have hp₁ : Precise ok { s with txns := s.txns.insert txn { state with
        savepoints := state.savepoints.take (pos + 1)
        writes := state.writes.take mark } } h.committed s.logs m :=
      hp.of_txns rfl rfl rfl (fun _ h => h) hp.committed_nil fun _ _ => rfl
    obtain ⟨s', hres, htxns, hframed, hp'⟩ := hp₁.undoAll hok hc hr
      (fun hm => hx (hl.ended txn hm)) hlog
    refine .inr ⟨s', ho.trans hres, hframed.of_withTxns, ?_⟩
    rwa [logs_congr htxns, logs_insertTxn]

lemma vacuumTable (hcat : Catalog s) (hrows : Rows s) (horizon : TxnId) (T : TableId) :
    ∃ s', MemoryStorage.vacuumTable horizon s.status T s = .ok () s' ∧ s'.txns = s.txns ∧
      Precise ok s' h.committed s.logs m := by
  rcases ht : s.tables.get? T with _ | t
  · exact ⟨s, vacuumTable_of_none ht _ _, rfl, hp⟩
  have hwf := hrows.wellFormed T t ht
  obtain ⟨s', hres, htxns, hlocal, hexact⟩ := takeAway_exact hok hcat hrows ht
    (takenAway_vacuum hwf horizon s.status) fun i hi ix hix => hp.exact T t i ix ht hi hix
  refine ⟨s', (vacuumTable_eq ht horizon s.status).trans hres, htxns, ?_⟩
  -- a version that a transaction not committed has written is kept
  have hkeeps : ∀ r v, Stored t.rows r v → ∀ x ∉ h.committed, v.xmin = x ∨ v.xmax = some x →
      ∀ y, y = none ∨ y = some x → keeps horizon s.status { v with xmax := y } = true := by
    intro r v hv x hx hmention y hy
    have hxmin := hp.creator_not_aborted hl ht hv
    have hstatus : s.status x = .inProgress :=
      (hp.committed_or_inProgress hl ht hv hmention).resolve_left hx
    rcases hy with rfl | rfl
    · simp [keeps, expired, orphaned, hxmin]
    · simp [keeps, expired, orphaned, hxmin, hstatus]
  have htail : ∀ x ∉ h.committed, ∀ r c, t.rows.get? r = some c →
      Tail x (m.birth T r) (m.death T r) (onRow T r (s.logs x))
        (c.filter (keeps horizon s.status)) := fun x hx r c hc =>
    (hp.tails x hx T t r c ht hc).filter fun v hv hmention y hy =>
      hkeeps r v ⟨c, hc, hv⟩ x hx hmention y hy
  refine hp.of_localChange hcat hlocal hp.committed_nil (fun _ _ he _ => he)
    (fun _ _ _ _ => rfl) (fun _ _ => rfl) (fun _ _ => rfl) hexact ?_ ?_ ?_
  · rintro x e he rfl
    obtain ⟨c, hc, _⟩ := hp.exists_chain he ht
    have hx : x ∉ h.committed := by
      intro hx
      rw [hp.committed_nil x hx] at he
      cases he
    have hne := (htail x hx _ c hc).ne_nil (onRow_ne_nil he rfl rfl)
    rw [vacuum_get?, hc, map_some, filter_some]
    exact ⟨_, if_pos (by simpa using hne)⟩
  · intro x hx r c' hc'
    rw [vacuum_get?, filter_eq_some_iff, map_eq_some_iff] at hc'
    obtain ⟨⟨c, hc, rfl⟩, _⟩ := hc'
    exact htail x hx r c hc
  · intro i hi ix hix hu r r' a b k k' hne ha hb hk hk' hkeys
    exact hp.apart T t i ix ht hi hix hu r r' a b k k' hne (stored_vacuum_iff.mp ha).1
      (stored_vacuum_iff.mp hb).1 hk hk' hkeys

lemma vacuum (hcat : Catalog s) (hrows : Rows s) (horizon : TxnId) :
    ∃ s', MemoryStorage.vacuum horizon s = .ok () s' ∧ Precise ok s' h.committed s'.logs m := by
  have hloop : EStateM.Achieves
      (fun s' => (Catalog s' ∧ Rows s') ∧ s'.txns = s.txns ∧ Precise ok s' h.committed s.logs m)
      (s.tables.keys.forM (MemoryStorage.vacuumTable horizon s.status))
      fun _ s' => (Catalog s' ∧ Rows s') ∧ s'.txns = s.txns ∧
        Precise ok s' h.committed s.logs m := by
    refine EStateM.Achieves.forM (fun _ s' => (Catalog s' ∧ Rows s') ∧ s'.txns = s.txns ∧
      Precise ok s' h.committed s.logs m) (fun T _ s₁ hs₁ => ?_) _
    obtain ⟨⟨hc, hr⟩, htxns, hp₁⟩ := hs₁
    have hstatus : s.status = s₁.status := by
      funext x
      rw [Inner.status, Inner.status, htxns]
    rw [← logs_congr htxns] at hp₁
    obtain ⟨s₂, hres, htxns₂, hp₂⟩ := hp₁.vacuumTable hok (htxns ▸ hl) hc hr horizon T
    have hsound := vacuumTable_preserves horizon s₁.status T s₁ ⟨hc, hr⟩
    rw [hres] at hsound
    rw [hstatus]
    rw [logs_congr htxns] at hp₂
    exact ⟨(), s₂, hres, hsound, htxns₂.trans htxns, hp₂⟩
  obtain ⟨_, s', hres, _, htxns, hp'⟩ := hloop s ⟨⟨hcat, hrows⟩, rfl, hp⟩
  refine ⟨s'.pruned horizon, ?_, ?_⟩
  · rw [MemoryStorage.vacuum, EStateM.get_bind_apply]
    exact EStateM.bind_of_ok hres
  · -- the transactions forgotten had an empty log
    have hlogs : (s'.pruned horizon).logs = s.logs := by
      funext x
      rw [Inner.logs, Inner.stateOf, Inner.pruned, OrderedMap.get?_filter, Inner.logs,
        Inner.stateOf, htxns]
      rcases hs : s.txns.get? x with _ | st
      · rfl
      rw [filter_some]
      split_ifs with hkeep
      · rfl
      · have hst : st.status ≠ .inProgress := by
          intro hst
          simp [TxnState.isFinished, hst] at hkeep
        exact (hl.finished x st hs hst).1.symm
    rw [hlogs]
    exact hp'.of_txns rfl rfl rfl (fun _ h => h) hp'.committed_nil fun _ _ => rfl

end Undo

/-! ### Databases, tables and indexes -/

lemma redefined (hl : Ledger s.txns h)
    (hcat : Catalog s) (hrows : Rows s) {new : TableId → IndexShape → Prop}
    (hs' : Redefined new s s')
    (hnew : ∀ T shape, new T shape → ∀ t order, s.tables.get? T = some t →
      KeyOrder.new "index key" shape.columns t.shape = .ok order →
      ∀ r v, Stored t.rows r v → order.HoldsOn ok v.data) :
    Precise ok s' h.committed s'.logs m := by
  rw [logs_congr hs'.txns_eq]
  -- a table of after that was there before has the rows it had
  have hrows' : ∀ T t t', s.tables.get? T = some t → s'.tables.get? T = some t' →
      t'.rows = t.rows := by
    intro T t t' ht ht'
    rcases hs'.tables T t' ht' with ⟨rfl, _⟩ | ⟨t₀, ht₀, heq, _⟩
    · exact absurd (hcat.table_lt _ t ht) (lt_irrefl _)
    · obtain rfl := mem_unique ht ht₀
      exact heq
  have hholds : ∀ {t t' : Table}, t'.rows = t.rows → ∀ r n d, t'.holds r n d ↔ t.holds r n d := by
    intro t t' heq r n d
    rw [holds, holds, heq]
  refine ⟨?_, hp.committed_nil, ?_, ?_, ?_, ?_⟩
  · intro T t' i ix ht' hi hix
    obtain ⟨t, ht, hold | ⟨shape, next, hallowed, hprep⟩⟩ := hs'.indexes T t' i ix ht' hi hix
    · exact (hp.exact T t i ix ht hold.1 hold.2).congr (hholds (hrows' T t t' ht ht'))
    · obtain ⟨_, _, _, hshape, hlink, hbuilt, _⟩ :=
        prepareIndex_spec ht (hrows.wellFormed T t ht) hprep
      refine Exact.congr ⟨fun e => ?_, fun e he => ?_⟩ (hholds (hrows' T t t' ht ht'))
      · rw [hbuilt.mem_iff]
        constructor
        · rintro ⟨v, hv, _, hs, hk⟩
          exact ⟨v.data, ⟨v, mem_versionsOf_iff.mp hv, hs, rfl⟩, hk⟩
        · rintro ⟨_, ⟨v, hv, hs, rfl⟩, hk⟩
          exact ⟨v, mem_versionsOf_iff.mpr hv, hp.creator_not_aborted hl ht hv, hs, hk⟩
      · obtain ⟨v, hv, _, _, hk⟩ := (hbuilt.mem_iff e).mp he
        exact (hnew T shape hallowed t ix.order ht (hshape ▸ hlink.order_eq) _ v
          (mem_versionsOf_iff.mp hv)).holds hk
  · exact fun x e he => (hp.table_lt x e he).trans_le hs'.counter_le
  · intro x e he t' ht'
    rcases hs'.tables _ t' ht' with ⟨hT, _⟩ | ⟨t, ht, heq, _⟩
    · exact absurd (hp.table_lt x e he) (by rw [hT]; exact lt_irrefl _)
    · rw [heq]
      exact hp.row_exists x e he t ht
  · intro x hx T t' r c ht' hc
    rcases hs'.tables T t' ht' with ⟨_, he⟩ | ⟨t, ht, heq, _⟩
    · rw [he] at hc
      cases hc
    · exact hp.tails x hx T t r c ht (heq ▸ hc)
  · intro T t' i ix ht' hi hix hu r r' a b k k' hne ha hb hk hk' hkeys
    obtain ⟨t, ht, hold⟩ := hs'.indexes T t' i ix ht' hi hix
    rw [hrows' T t t' ht ht'] at ha hb
    rcases hold with hold | ⟨shape, next, hallowed, hprep⟩
    · exact hp.apart T t i ix ht hold.1 hold.2 hu r r' a b k k' hne ha hb hk hk' hkeys
    · have hwf := hrows.wellFormed T t ht
      obtain ⟨_, _, _, hshape, hlink, hbuilt, hdup⟩ := prepareIndex_spec ht hwf hprep
      have hentry : ∀ {r v k}, Stored t.rows r v → ix.order.extract v.data = .ok k →
          (⟨k, r, v.seq⟩ : IndexEntry) ∈ ix.entries := fun hv hk => (hbuilt.mem_iff _).mpr
        ⟨_, mem_versionsOf_iff.mpr hv, hp.creator_not_aborted hl ht hv, rfl, hk⟩
      obtain ⟨v, w, hv, hw, hlive⟩ := Index.firstDuplicateKey_none hbuilt.sorted
        (hdup (hshape ▸ hu)) (hentry hb hk') (hentry ha hk) hkeys hne.symm
      rw [hwf.findVersion_eq hb] at hv
      rw [hwf.findVersion_eq ha] at hw
      obtain rfl := some.inj hv
      obtain rfl := some.inj hw
      rcases hlive with hlive | hlive
      · obtain ⟨w, hw, hc | hobs⟩ := hp.deleted_of_not_live hl ht hb hlive
        · exact .inr (.inl ⟨w, hc, hw⟩)
        · cases hobs
      · obtain ⟨w, hw, hc | hobs⟩ := hp.deleted_of_not_live hl ht ha hlive
        · exact .inl (.inl ⟨w, hc, hw⟩)
        · cases hobs

end Precise

/-! ### Every call of a keyed run -/

/-- Everything that is kept along a run whose key values satisfy `ok`. -/
structure Tracked (ok : Column → Value → Bool) (σ : Site) : Prop where
  catalog : Catalog σ.inner
  rows : Rows σ.inner
  registry : Registry σ.inner σ.history
  precise : ∃ m, Precise ok σ.inner σ.history.committed σ.inner.logs m

variable {σ : Site}

namespace Tracked

variable {ok : Column → Value → Bool} (hok : ∀ c v, ok c v = true → v.selfComparable = true)
include hok

lemma precise_after (h : Tracked ok σ) (c : Call)
    (hlive : ∀ t, c.txn? = some t → t ∉ σ.history.ended) (hkeyed : c.Keyed ok σ.inner) :
    ∃ m, Precise ok (c.after σ.inner) (σ.history.after c).committed (c.after σ.inner).logs m := by
  obtain ⟨hcat, hrows, hreg, m, hp⟩ := h
  have hl := hreg.ledger
  by_cases hend : (∃ x, c = .rollback x) ∨ (∃ x sp, c = .rollbackTo x sp) ∨ ∃ n, c = .vacuum n
  · -- the undo of writes and a vacuum succeed
    rcases hend with ⟨x, rfl⟩ | ⟨x, sp, rfl⟩ | ⟨horizon, rfl⟩ <;>
      simp only [Call.after, Call.exec, Call.state_map, History.after]
    · obtain ⟨s', hres, _, hp'⟩ := hp.rollback hok hl hcat hrows (hlive x rfl)
      rw [hres]
      exact ⟨m, hp'⟩
    · rcases hp.rollbackTo hok hl hcat hrows x sp with ⟨e, hres, _⟩ | ⟨s', hres, _, hp'⟩ <;>
        rw [hres]
      · exact ⟨m, hp⟩
      · exact ⟨m, hp'⟩
    · obtain ⟨s', hres, hp'⟩ := hp.vacuum hok hl hcat hrows horizon
      rw [hres]
      exact ⟨m, hp'⟩
  have heff := c.effect hcat hrows
  generalize c.after σ.inner = s' at heff ⊢
  cases heff with
  | idle hend =>
    cases c <;> first
      | exact ⟨m, hp⟩
      | exact absurd (hl.stateOf_of_live (hlive _ rfl)) (hend _ (by simp))
  | redefined hdef hs' =>
    have hsame : σ.history.after c = σ.history := by cases c <;> cases hdef <;> rfl
    rw [hsame]
    refine ⟨m, hp.redefined hl hcat hrows hs' ?_⟩
    rintro T shape rfl
    exact hkeyed
  | inserted ht _ hplan => exact hp.insert hl hcat hrows (hlive _ rfl) ht hplan hkeyed
  | updated ht hc hxmax hcurrent _ hplan =>
    exact hp.update hreg hcat hrows (hlive _ rfl) ht hc hxmax hcurrent hplan hkeyed
  | deleted ht hc hxmax hcurrent _ =>
    exact hp.delete hreg hcat hrows (hlive _ rfl) ht hc hxmax hcurrent
  | committed _ => exact ⟨m, hp.commit (hlive _ rfl)⟩
  | marked _ _ => exact ⟨m, hp.savepoint⟩
  | rolledBack _ => exact absurd (.inl ⟨_, rfl⟩) hend
  | returned _ _ _ _ => exact absurd (.inr (.inl ⟨_, _, rfl⟩)) hend
  | vacuumed horizon => exact absurd (.inr (.inr ⟨_, rfl⟩)) hend

theorem after (h : Tracked ok σ) (c : Call)
    (hlive : ∀ t, c.txn? = some t → t ∉ σ.history.ended) (hkeyed : c.Keyed ok σ.inner) :
    Tracked ok (σ.after c) where
  catalog := (c.after_sound h.catalog h.rows).1
  rows := (c.after_sound h.catalog h.rows).2
  registry := h.registry.after h.catalog h.rows c hlive
  precise := h.precise_after hok c hlive hkeyed

/-- A call of a transaction keeps what the others have written. -/
theorem framed (h : Tracked ok σ) {c : Call} (hc : c.txn? = some x)
    (hx : x ∉ σ.history.ended) : Framed x σ.inner (c.after σ.inner) := by
  obtain ⟨hcat, hrows, hreg, m, hp⟩ := h
  rcases Call.framed_or_undoes hcat hrows hc with hframed | rfl | ⟨sp, rfl⟩
  · exact hframed
  · simp only [Call.after, Call.exec, Call.state_map]
    obtain ⟨s', hres, hf, _⟩ := hp.rollback hok hreg.ledger hcat hrows hx
    rw [hres]
    exact hf
  · simp only [Call.after, Call.exec, Call.state_map]
    rcases hp.rollbackTo hok hreg.ledger hcat hrows x sp with ⟨_, hres, _⟩ | ⟨_, hres, hf, _⟩ <;>
      rw [hres]
    · exact .refl x _
    · exact hf

omit hok in
lemma initial : Tracked ok .initial where
  catalog := Site.initial_sound.1
  rows := Site.initial_sound.2
  registry := Site.initial_registry
  precise := ⟨⟨fun _ _ _ => 0, fun _ _ _ => 0⟩, nofun, nofun, nofun, nofun, nofun, nofun⟩

end Tracked

/-- The logs, the chains and the indexes agree in every keyed run. -/
theorem Site.Reachable.tracked {ok : Column → Value → Bool}
    (hok : ∀ c v, ok c v = true → v.selfComparable = true) {allowed : Inner → Call → Prop}
    (hallowed : ∀ s c, allowed s c → c.Keyed ok s) (h : σ.Reachable allowed) : Tracked ok σ :=
  h.induction .initial fun σ c hσ hlive hc => hσ.after hok c hlive (hallowed σ.inner c hc)

end VaubanDB
