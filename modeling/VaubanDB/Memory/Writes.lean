import VaubanDB.Memory.Precise

/-!
Writes keep the logs, the chains and the indexes in agreement.

A write of `txn` on a row goes to the end of its chain and to the end of the log of `txn`.  The
uniqueness test of an index looks at the versions with the new key: one that is not live was
deleted by a committed transaction, or by `txn` itself earlier in its log.
-/

namespace VaubanDB

open MemoryStorage Moments Version List Option Function

def Inner.logs (s : Inner) (x : TxnId) : List UndoEntry := (s.stateOf x).writes

namespace Moments

/-- The moments after a version is created. -/
def born (m : Moments) (T : TableId) (r : RowId) (k n : ℕ) : Moments :=
  { m with birth := fun T' r' k' => if T' = T ∧ r' = r ∧ k' = k then n else m.birth T' r' k' }

/-- The moments after a version is deleted. -/
def died (m : Moments) (T : TableId) (r : RowId) (k n : ℕ) : Moments :=
  { m with death := fun T' r' k' => if T' = T ∧ r' = r ∧ k' = k then n else m.death T' r' k' }

variable {m : Moments} {T T' : TableId} {r r' : RowId} {k k' n : ℕ}

@[simp] lemma birth_born_self : (m.born T r k n).birth T r k = n := if_pos ⟨rfl, rfl, rfl⟩

@[simp] lemma death_died_self : (m.died T r k n).death T r k = n := if_pos ⟨rfl, rfl, rfl⟩

lemma birth_born_of_table_ne (h : T' ≠ T) : (m.born T r k n).birth T' = m.birth T' := by
  funext r' k'
  exact if_neg fun hc => h hc.1

lemma death_died_of_table_ne (h : T' ≠ T) : (m.died T r k n).death T' = m.death T' := by
  funext r' k'
  exact if_neg fun hc => h hc.1

lemma birth_born_of_ne (h : r' = r → k' ≠ k) : (m.born T r k n).birth T r' k' = m.birth T r' k' :=
  if_neg fun hc => h hc.2.1 hc.2.2

lemma death_died_of_ne (h : r' = r → k' ≠ k) : (m.died T r k n).death T r' k' = m.death T r' k' :=
  if_neg fun hc => h hc.2.1 hc.2.2

end Moments

lemma logs_written (s : Inner) (txn : TxnId) (T : TableId) (t : Table)
    (planned : List PlannedEntry) (entry : UndoEntry) : (s.written txn T t planned entry).logs
      = update s.logs txn (s.logs txn ++ [entry]) := by
  funext x
  by_cases hx : x = txn
  · subst hx
    rw [update_self]
    simp only [Inner.logs, Inner.stateOf, Inner.written, logWrite, OrderedMap.get?_insert_self,
      getD_some]
  · rw [update_of_ne hx]
    simp only [Inner.logs, Inner.stateOf, Inner.written, logWrite, OrderedMap.get?_insert_ne _ _ hx]

variable {entry : UndoEntry} {logs : TxnId → List UndoEntry}

lemma mem_log_write {x y : TxnId} {e : UndoEntry} (h : e ∈ update logs x (logs x ++ [entry]) y) :
    e ∈ logs y ∨ (y = x ∧ e = entry) := by
  by_cases hyx : y = x
  · subst hyx
    rw [update_self, mem_append, mem_singleton] at h
    exact h.imp id fun he => ⟨rfl, he⟩
  · rw [update_of_ne hyx] at h
    exact .inl h

variable {r : RowId}

lemma onRow_write_of_notMem {x : TxnId}
    {T : TableId} (hnot : ¬ (entry.table = T ∧ entry.row = r)) (y : TxnId) :
    onRow T r (update logs x (logs x ++ [entry]) y) = onRow T r (logs y) := by
  by_cases hyx : y = x
  · subst hyx
    rw [update_self, onRow_append, if_neg hnot]
  · rw [update_of_ne hyx]

/-! ### Exact indexes -/

variable {t' t : Table} {ok : Column → Value → Bool} {ix : Index} {key : List Value}

lemma Exact.insertEntry (h : Exact ok t ix) {n pos : ℕ} {data : Row}
    (hholds : ∀ r' n' d, t'.holds r' n' d ↔ (r' = r ∧ n' = n ∧ d = data) ∨ t.holds r' n' d)
    (hkey : ix.order.extract data = .ok key) (hok : ix.order.Holds ok key)
    (hpos : pos ≤ ix.entries.length) :
    Exact ok t' { ix with entries := ix.entries.insertIdx pos ⟨key, r, n⟩ } where
  lists := by
    intro e
    simp only [mem_insertIdx_iff hpos, h.lists e, hholds]
    constructor
    · rintro (rfl | ⟨d, hd, hk⟩)
      · exact ⟨data, .inl ⟨rfl, rfl, rfl⟩, hkey⟩
      · exact ⟨d, .inr hd, hk⟩
    · rintro ⟨d, ⟨hr, hn, rfl⟩ | hd, hk⟩
      · left
        have hkey' : key = e.key := Except.ok.inj (hkey.symm.trans hk)
        cases e
        simp_all
      · exact .inr ⟨d, hd, hk⟩
  keys := by
    intro e he
    rcases (mem_insertIdx_iff hpos).mp he with rfl | he
    · exact hok
    · exact h.keys e he

lemma Exact.congr (h : Exact ok t ix)
    (hholds : ∀ r n d, t'.holds r n d ↔ t.holds r n d) : Exact ok t' ix :=
  ⟨fun e => by simp only [h.lists e, hholds], h.keys⟩

variable {c : List Version}

lemma holds_withChain {c' : List Version}
    (hc : t.rows.get? r = some c) (hcore : c'.map core = c.map core)
    (r' : RowId) (n : ℕ) (data : Row) : (t.withChain r c').holds r' n data ↔ t.holds r' n data := by
  have hmem : ∀ {d d' : List Version}, d.map core = d'.map core →
      (∃ v ∈ d, v.seq = n ∧ v.data = data) → ∃ v ∈ d', v.seq = n ∧ v.data = data := by
    rintro d d' hd ⟨v, hv, rfl, rfl⟩
    obtain ⟨w, hw, heq⟩ := mem_map.mp (hd ▸ mem_map_of_mem hv : v.core ∈ d'.map _)
    exact ⟨w, hw, congrArg Prod.fst heq, congrArg (fun p => p.2.1) heq⟩
  constructor
  · rintro ⟨v, hv, hn, hd⟩
    rcases stored_insert_iff.mp hv with ⟨rfl, hnew⟩ | ⟨_, hold⟩
    · obtain ⟨w, hw, hn, hd⟩ := hmem hcore ⟨v, hnew, hn, hd⟩
      exact ⟨w, ⟨c, hc, hw⟩, hn, hd⟩
    · exact ⟨v, hold, hn, hd⟩
  · rintro ⟨v, ⟨d, hd, hv⟩, hn, hdata⟩
    by_cases hr : r' = r
    · subst hr
      obtain rfl := mem_unique hc hd
      obtain ⟨w, hw, hn, hd⟩ := hmem hcore.symm ⟨v, hv, hn, hdata⟩
      exact ⟨w, stored_insert_iff.mpr (.inl ⟨rfl, hw⟩), hn, hd⟩
    · exact ⟨v, stored_insert_iff.mpr (.inr ⟨hr, d, hd, hv⟩), hn, hdata⟩

variable {a : Version} {row : Row}

lemma holds_withUpdate {txn : TxnId}
    (hc : t.rows.get? r = some (c ++ [a])) (r' : RowId) (n : ℕ) (data : Row) :
    (t.withUpdate txn r c a row).holds r' n data ↔
      (r' = r ∧ n = t.nextSeq ∧ data = row) ∨ t.holds r' n data := by
  have hcore : (c ++ [{ a with xmax := some txn }]).map core = (c ++ [a]).map core := by simp [core]
  rw [← holds_withChain hc hcore]
  constructor
  · rintro ⟨v, hv, rfl, rfl⟩
    rcases stored_insert_iff.mp hv with ⟨hr, hmem⟩ | ⟨hr, hold⟩
    · rw [append_cons] at hmem
      rcases mem_snoc.mp hmem with hmem | rfl
      · exact .inr ⟨v, stored_insert_iff.mpr (.inl ⟨hr, hmem⟩), rfl, rfl⟩
      · exact .inl ⟨hr, rfl, rfl⟩
    · exact .inr ⟨v, stored_insert_iff.mpr (.inr ⟨hr, hold⟩), rfl, rfl⟩
  · rintro (⟨rfl, rfl, rfl⟩ | ⟨v, hv, rfl, rfl⟩)
    · exact ⟨⟨txn, none, data, t.nextSeq⟩, stored_insert_iff.mpr (.inl ⟨rfl, by simp⟩), rfl, rfl⟩
    · refine ⟨v, stored_insert_iff.mpr ?_, rfl, rfl⟩
      refine (stored_insert_iff.mp hv).imp (fun h => ⟨h.1, ?_⟩) fun h => h
      rw [append_cons]
      exact mem_append_left _ h.2

namespace Precise

variable {ok : Column → Value → Bool} {s : Inner} {h : History} {m : Moments} {T : TableId}
  {t : Table} {r : RowId} {txn : TxnId}

/-! ### Versions that are not live -/

variable (hp : Precise ok s h.committed s.logs m)
include hp

variable (hl : Ledger s.txns h)
include hl

lemma committed_or_inProgress
    (ht : s.tables.get? T = some t) {v : Version} (hv : Stored t.rows r v) {w : TxnId}
    (hw : v.xmin = w ∨ v.xmax = some w) : w ∈ h.committed ∨ s.status w = .inProgress := by
  by_contra hnot
  rw [not_or] at hnot
  obtain ⟨c, hc, hv⟩ := hv
  have htail := hp.tails w hnot.1 T t r c ht hc
  have hnil : s.logs w = [] := by
    rw [Inner.logs, Inner.stateOf]
    rcases hs : s.txns.get? w with _ | st
    · rfl
    refine (hl.finished w st hs fun hst => hnot.2 ?_).1
    rw [Inner.status, statusIn, hs]
    exact hst
  rw [hnil, onRow_nil] at htail
  obtain ⟨hmin, hmax⟩ := htail.not_mentioned v hv
  exact hw.elim hmin hmax

lemma creator_not_aborted (ht : s.tables.get? T = some t) {v : Version} (hv : Stored t.rows r v) :
    s.status v.xmin ≠ .aborted := by
  rcases hp.committed_or_inProgress hl ht hv (.inl rfl) with hc | hi
  · rw [Inner.status, hl.status_of_committed hc]
    decide
  · rw [hi]
    decide

/-- A version that is not live was deleted by a committed transaction or by the observer. -/
lemma deleted_of_not_live
    (ht : s.tables.get? T = some t) {v : Version} (hv : Stored t.rows r v) {observer : Option TxnId}
    (hlive : isLive v observer s.status = false) :
    ∃ w, v.xmax = some w ∧ (w ∈ h.committed ∨ some w = observer) := by
  rw [isLive] at hlive
  split_ifs at hlive with hab
  · exact absurd hab (hp.creator_not_aborted hl ht hv)
  · cases hx : v.xmax with
    | none => simp [hx] at hlive
    | some w =>
      refine ⟨w, rfl, ?_⟩
      rw [hx] at hlive
      by_cases hobs : some w = observer
      · exact .inr hobs
      · rcases hp.committed_or_inProgress hl ht hv (.inr hx) with hc | hi
        · exact .inl hc
        · simp [hobs, hi] at hlive

/-! ### A write on one row -/

omit hl in
omit hp in
/-- What the order of deletions and creations needs of a version that is written over. -/
lemma before_of_written {committed : Set TxnId} (m m' : Moments) {r' : RowId} {b a' b' : Version}
    (ha : a' = a ∨ a.xmax = none) (hb : b'.core = b.core)
    (hdeath : a.xmax ≠ none → m'.death T r a.seq = m.death T r a.seq)
    (hbirth : m'.birth T r' b.seq = m.birth T r' b.seq) (h : Before committed m T r a r' b) :
    Before committed m' T r a' r' b' := by
  have hxmin : b'.xmin = b.xmin := congrArg (fun p => p.2.2) hb
  have hseq : b'.seq = b.seq := congrArg Prod.fst hb
  have hne : a.xmax ≠ none := by rcases h with ⟨w, _, hw⟩ | ⟨hw, _⟩ <;> simp [hw]
  obtain rfl : a' = a := ha.resolve_right hne
  rw [Before, hxmin, hseq, hdeath hne, hbirth]
  exact h

variable {replacing : Option RowId} {id : RowId}

/-- The new version of `txn` comes after the versions with its key in the other rows. -/
lemma before_new (hrows : Rows s) (hx : txn ∉ h.ended) {i : IndexId}
    {pos : ℕ} (ht : s.tables.get? T = some t)
    (hi : i ∈ t.indexes.keys) (hplan : PlannedFor s txn t row id t.nextSeq replacing i ix key pos)
    (hreplacing : ∀ r, r ≠ id → some r ≠ replacing) (hunique : ix.shape.unique = true)
    {d b : Version} {k : List Value} (hr : r ≠ id) (hd : Stored t.rows r d)
    (hk : ix.order.extract d.data = .ok k) (hkeys : ix.order.comparePrefix k key = .ok .eq)
    (hb : b.xmin = txn) {m' : Moments} (hdeath : m'.death T r d.seq = m.death T r d.seq)
    (hbirth : m'.birth T id b.seq = (s.logs txn).length) : Before h.committed m' T r d id b := by
  have hlink := hrows.linked T t i ix ht hi hplan.index_eq
  have he : (⟨k, r, d.seq⟩ : IndexEntry) ∈ ix.entries :=
    ((hp.exact T t i ix ht hi hplan.index_eq).lists _).mpr ⟨d.data, ⟨d, hd, rfl, rfl⟩, hk⟩
  obtain ⟨v, hv, hlive⟩ := Index.hasLiveDuplicate_false hlink.sorted
    (KeyOrder.length_of_extract hplan.key_eq) (hplan.noDuplicate hunique) _ he hkeys
    (hreplacing r hr)
  rw [(hrows.wellFormed T t ht).findVersion_eq hd] at hv
  obtain rfl := some.inj hv
  obtain ⟨w, hw, hc | hobs⟩ := hp.deleted_of_not_live hl ht hd hlive
  · exact .inl ⟨w, hc, hw⟩
  · refine .inr ⟨by rw [hw, hb, some.inj hobs], ?_⟩
    rw [hdeath, hbirth]
    obtain ⟨c, hc, hdc⟩ := hd
    have htail := hp.tails txn (fun hm => hx (hl.ended txn hm)) T t r c ht hc
    obtain ⟨p, hmem, heq⟩ := (htail.exists_write hdc).2 (hw.trans hobs)
    rw [heq]
    exact position_lt_of_mem_onRow hmem

omit hl in
lemma committed_nil_write (hx : txn ∉ h.committed) (entry : UndoEntry) :
    ∀ y ∈ h.committed, update s.logs txn (s.logs txn ++ [entry]) y = [] := by
  intro y hy
  have hyx : y ≠ txn := by
    rintro rfl
    exact hx hy
  rw [update_of_ne hyx]
  exact hp.committed_nil y hy

/-- A version that a write leaves was there, and may have got its deleter, or `txn` has created it.
-/
inductive Rewritten (s : Inner) (txn : TxnId) (T : TableId) (t : Table) (id : RowId) (m' : Moments)
    (v' : Version) : Prop
  | kept (v : Version) (hv : Stored t.rows id v) (hcore : v'.core = v.core)
      (hcase : v' = v ∨ v.xmax = none)
  | new (replacing : Option RowId) (hxmin : v'.xmin = txn)
      (hbirth : m'.birth T id v'.seq = (s.logs txn).length)
      (hskip : ∀ r, r ≠ id → some r ≠ replacing)
      (hplan : ∀ i ∈ t.indexes.keys, ∃ ix key pos,
        PlannedFor s txn t v'.data id t.nextSeq replacing i ix key pos)

variable {planned : List PlannedEntry}

lemma rewritten (hcat : Catalog s) (hrows : Rows s) (hx : txn ∉ h.ended)
    (id : RowId) {d : List Version} {m' : Moments}
    (hlocal : LocalChange s (s.written txn T t' planned entry) T t t') (hT : entry.table = T)
    (hid : entry.row = id) (hset : t'.rows = t.rows.insert id d)
    (htable : ∀ T', T' ≠ T → m'.birth T' = m.birth T' ∧ m'.death T' = m.death T')
    (hbirth : ∀ r v, Stored t.rows r v → m'.birth T r v.seq = m.birth T r v.seq)
    (hdeath : ∀ r v, Stored t.rows r v → (r = id → v.xmax ≠ none) →
      m'.death T r v.seq = m.death T r v.seq)
    (hexact : ∀ i ∈ t.indexes.keys, ∀ ix',
      (s.written txn T t' planned entry).indexes.get? i = some ix' → Exact ok t' ix')
    (hmine : Tail txn (m'.birth T id) (m'.death T id)
      ((entry, (s.logs txn).length) :: onRow T id (s.logs txn)) d)
    (hothers : ∀ y ∉ h.committed, y ≠ txn →
      Tail y (m'.birth T id) (m'.death T id) (onRow T id (s.logs y)) d)
    (hversion : ∀ v ∈ d, Rewritten s txn T t id m' v) :
    Precise ok (s.written txn T t' planned entry) h.committed
      (s.written txn T t' planned entry).logs m' := by
  have ht := hlocal.before
  have hstored : ∀ {r v}, Stored t'.rows r v → (r = id ∧ v ∈ d) ∨ (r ≠ id ∧ Stored t.rows r v) := by
    rw [hset]
    exact stored_insert_iff.mp
  rw [logs_written]
  refine hp.of_localChange hcat hlocal
    (hp.committed_nil_write (fun hm => hx (hl.ended txn hm)) entry)
    ?_ (fun y T' r hT' => onRow_write_of_notMem (fun hc => hT' (hc.1.symm.trans hT)) y)
    (fun T' hT' => (htable T' hT').1) (fun T' hT' => (htable T' hT').2) hexact ?_ ?_ ?_
  · intro y e he hT'
    rcases mem_log_write he with he | ⟨_, rfl⟩
    · exact he
    · exact absurd hT hT'
  · intro y e he hT'
    rw [hset]
    by_cases hr : e.row = id
    · exact ⟨d, by rw [hr, OrderedMap.get?_insert_self]⟩
    · rcases mem_log_write he with he | ⟨_, rfl⟩
      · obtain ⟨c, hc⟩ := hp.row_exists y e he t (hT' ▸ ht)
        exact ⟨c, OrderedMap.get?_insert_eq_some.mpr (.inr ⟨hr, hc⟩)⟩
      · exact absurd hid hr
  · intro y hy r c hc
    rw [hset] at hc
    rcases OrderedMap.get?_insert_eq_some.mp hc with ⟨rfl, rfl⟩ | ⟨hr, hc⟩
    · by_cases hyx : y = txn
      · subst hyx
        rw [update_self, onRow_append, if_pos ⟨hT, hid⟩]
        exact hmine
      · rw [update_of_ne hyx]
        exact hothers y hy hyx
    · rw [onRow_write_of_notMem (fun hc => hr (hc.2.symm.trans hid))]
      exact (hp.tails y hy T t r c ht hc).congr (fun v hv => hbirth r v ⟨c, hc, hv⟩)
        fun v hv _ => hdeath r v ⟨c, hc, hv⟩ fun h => absurd h hr
  · intro i hi ix hix hunique r r' a b k k' hne ha hb hk hk' hkeys
    -- what `txn` has created comes after the others
    have hnew : ∀ {r r' a b k k'}, r ≠ r' → Stored t'.rows r a → Stored t'.rows r' b →
        ix.order.extract a.data = .ok k → ix.order.extract b.data = .ok k' →
        ix.order.comparePrefix k k' = .ok .eq → (∃ b₀, Stored t.rows r' b₀ ∧ b.core = b₀.core ∧
          (b = b₀ ∨ (r' = id ∧ b₀.xmax = none))) ∨ Before h.committed m' T r a r' b := by
      intro r r' a b k k' hne ha hb hk hk' hkeys
      rcases hstored hb with ⟨rfl, hb⟩ | ⟨_, hb⟩
      · cases hversion b hb with
        | kept b₀ hb₀ hcore hcase => exact .inl ⟨b₀, hb₀, hcore, hcase.imp_right fun h => ⟨rfl, h⟩⟩
        | new replacing hxmin hborn hskip hplan =>
          obtain ⟨ix₀, key, pos, hpl⟩ := hplan i hi
          obtain rfl := mem_unique hix hpl.index_eq
          obtain rfl := Except.ok.inj (hpl.key_eq.symm.trans hk')
          obtain ha := ((hstored ha).resolve_left fun h => hne h.1).2
          exact .inr (hp.before_new hl hrows hx ht hi hpl hskip hunique hne ha hk hkeys hxmin
            (hdeath r a ha fun h => absurd h hne) hborn)
      · exact .inl ⟨b, hb, rfl, .inl rfl⟩
    rcases hnew hne ha hb hk hk' hkeys with ⟨b₀, hb₀, hcore', hcase'⟩ | hbefore
    · rcases hnew hne.symm hb ha hk' hk (KeyOrder.comparePrefix_swap hkeys) with
        ⟨a₀, ha₀, hcore, hcase⟩ | hbefore
      · rw [show a.data = a₀.data from congrArg (fun p => p.2.1) hcore] at hk
        rw [show b.data = b₀.data from congrArg (fun p => p.2.1) hcore'] at hk'
        exact (hp.apart T t i ix ht hi hix hunique r r' a₀ b₀ k k' hne ha₀ hb₀ hk hk' hkeys).imp
          (before_of_written m _ (hcase.imp_right And.right) hcore'
            (fun h => hdeath r a₀ ha₀ fun _ => h) (hbirth r' b₀ hb₀))
          (before_of_written m _ (hcase'.imp_right And.right) hcore
            (fun h => hdeath r' b₀ hb₀ fun _ => h) (hbirth r a₀ ha₀))
      · exact .inr hbefore
    · exact .inl hbefore

/-- The values a row puts in the key columns of the indexes of a table satisfy `ok`. -/
def RowOk (ok : Column → Value → Bool) (s : Inner) (T : TableId) (row : Row) : Prop :=
  ∀ t i ix, s.tables.get? T = some t → i ∈ t.indexes.keys → s.indexes.get? i = some ix →
    ix.order.HoldsOn ok row

omit hl in
lemma exact_written (hrows : Rows s) (ht : s.tables.get? T = some t)
    (hplan : s.planEntries txn T row id t.nextSeq replacing = .ok planned)
    (hkeyed : RowOk ok s T row)
    (hholds : ∀ r n d, t'.holds r n d ↔ (r = id ∧ n = t.nextSeq ∧ d = row) ∨ t.holds r n d) :
    ∀ i ∈ t.indexes.keys, ∀ ix', (s.written txn T t' planned entry).indexes.get? i = some ix' →
      Exact ok t' ix' := by
  intro i hi ix' hix'
  obtain ⟨ix, key, pos, hpl, hget⟩ := (planEntries_spec ht hplan).2 i hi
  obtain rfl := mem_unique hix' hget
  have hlink := hrows.linked T t i ix ht hi hpl.index_eq
  have hnew : ∀ e ∈ ix.entries, ¬ (e.row = id ∧ e.version = t.nextSeq) := by
    intro e he heq
    have := hlink.seq_lt e he
    omega
  obtain ⟨hle, _⟩ := hlink.sorted.insert (KeyOrder.length_of_extract hpl.key_eq) hnew hpl.pos_eq
  rw [min_eq_left hle]
  exact (hp.exact T t i ix ht hi hpl.index_eq).insertEntry hholds hpl.key_eq
    ((hkeyed t i ix ht hi hpl.index_eq).holds hpl.key_eq) hle

omit hl in
omit hp in
lemma planned_for (ht : s.tables.get? T = some t)
    (hplan : s.planEntries txn T row id t.nextSeq replacing = .ok planned) :
    ∀ i ∈ t.indexes.keys, ∃ ix key pos,
      PlannedFor s txn t row id t.nextSeq replacing i ix key pos := by
  intro i hi
  obtain ⟨ix, key, pos, hpl, _⟩ := (planEntries_spec ht hplan).2 i hi
  exact ⟨ix, key, pos, hpl⟩

lemma insert (hcat : Catalog s) (hrows : Rows s) (hx : txn ∉ h.ended)
    (ht : s.tables.get? T = some t)
    (hplan : s.planEntries txn T row t.nextRowId t.nextSeq none = .ok planned)
    (hkeyed : RowOk ok s T row) :
    ∃ m', Precise ok (s.written txn T (t.withRow txn row) planned (.insert T t.nextRowId))
      h.committed
        (s.written txn T (t.withRow txn row) planned (.insert T t.nextRowId)).logs m' := by
  have hwf := hrows.wellFormed T t ht
  have hfresh : ∀ {r c}, t.rows.get? r = some c → r ≠ t.nextRowId :=
    fun hc => ne_of_lt (hwf.row_lt _ _ hc)
  have hnone : ∀ y, onRow T t.nextRowId (s.logs y) = [] := by
    refine fun y => onRow_eq_nil ?_
    rintro e he ⟨rfl, hr⟩
    obtain ⟨c, hc⟩ := hp.row_exists y e he t ht
    exact hfresh hc hr
  refine ⟨m.born T t.nextRowId t.nextSeq (s.logs txn).length, hp.rewritten hl hcat hrows hx
    t.nextRowId (written_localChange ht hplan rfl rfl rfl rfl) rfl rfl rfl
    (fun T' hT => ⟨birth_born_of_table_ne hT, rfl⟩)
    (fun r v hv => birth_born_of_ne fun _ => ne_of_lt (hwf.seq_lt r v hv))
    (fun _ _ _ _ => rfl) (hp.exact_written hrows ht hplan hkeyed ?_) ?_ (fun y _ hyx => ?_)
    fun v hv => ?_⟩
  · intro r n d
    constructor
    · rintro ⟨v, hv, rfl, rfl⟩
      rcases stored_insert_iff.mp hv with ⟨hr, hv⟩ | ⟨_, hv⟩
      · obtain rfl := mem_singleton.mp hv
        exact .inl ⟨hr, rfl, rfl⟩
      · exact .inr ⟨v, hv, rfl, rfl⟩
    · rintro (⟨rfl, rfl, rfl⟩ | ⟨v, ⟨c, hc, hv⟩, rfl, rfl⟩)
      · exact ⟨_, stored_insert_iff.mpr (.inl ⟨rfl, mem_singleton_self _⟩), rfl, rfl⟩
      · exact ⟨v, stored_insert_iff.mpr (.inr ⟨hfresh hc, c, hc, hv⟩), rfl, rfl⟩
  · rw [hnone]
    exact .insert rfl rfl birth_born_self
  · rw [hnone]
    refine .none fun v hv => ?_
    obtain rfl := mem_singleton.mp hv
    exact ⟨Ne.symm hyx, nofun⟩
  · obtain rfl := mem_singleton.mp hv
    exact .new none rfl birth_born_self (fun _ _ => nofun) (planned_for ht hplan)

omit hl

/-- A chain whose last version is stamped by `txn`, which no other transaction has written. -/
lemma tails_stamped
    {y : TxnId} (ht : s.tables.get? T = some t) (hc : t.rows.get? r = some (c ++ [a]))
    (hxmax : a.xmax = none) (hxmin : a.xmin = txn ∨ a.xmin ∈ h.committed) (hy : y ∉ h.committed)
    (hyx : y ≠ txn) : onRow T r (s.logs y) = [] ∧
      ∀ v ∈ c ++ [{ a with xmax := some txn }], v.xmin ≠ y ∧ v.xmax ≠ some y := by
  have htail := hp.tails y hy T t r _ ht hc
  have hay : a.xmin ≠ y := by
    rintro rfl
    exact hxmin.elim hyx hy
  have hnil := htail.eq_nil_of_current hxmax hay
  refine ⟨hnil, fun v hv => ?_⟩
  rw [hnil] at htail
  rcases mem_snoc.mp hv with hv | rfl
  · exact htail.not_mentioned v (by simp [hv])
  · exact ⟨hay, fun heq => hyx (some.inj heq).symm⟩

lemma tail_before_stamp (hwf : t.WellFormed)
    (hx : txn ∉ h.committed) (ht : s.tables.get? T = some t)
    (hc : t.rows.get? r = some (c ++ [a])) (hxmax : a.xmax = none) {m' : Moments}
    (hbirth : ∀ v ∈ c ++ [a], m'.birth T r v.seq = m.birth T r v.seq)
    (hdeath : ∀ k, k ≠ a.seq → m'.death T r k = m.death T r k) :
    Tail txn (m'.birth T r) (m'.death T r) (onRow T r (s.logs txn))
      (c ++ [{ a with xmax := none }]) := by
  have heq : { a with xmax := none } = a := by
    cases a
    simp_all
  rw [heq]
  refine (hp.tails txn hx T t r _ ht hc).congr hbirth fun v hv hvx => hdeath _ fun hseq => ?_
  rw [hwf.eq_of_seq ⟨_, hc, hv⟩ ⟨_, hc, by simp⟩ hseq, hxmax] at hvx
  cases hvx

omit hp in
lemma kept_of_stamp {v : Version} {x : Option TxnId} {m' : Moments}
    (hc : t.rows.get? r = some (c ++ [a])) (hxmax : a.xmax = none)
    (hv : v ∈ c ++ [{ a with xmax := x }]) : Rewritten s txn T t r m' v := by
  rcases mem_snoc.mp hv with hv | rfl
  · exact .kept v ⟨_, hc, by simp [hv]⟩ rfl (.inl rfl)
  · exact .kept a ⟨_, hc, by simp⟩ rfl (.inr hxmax)

lemma delete (hreg : Registry s h) (hcat : Catalog s) (hrows : Rows s) (hx : txn ∉ h.ended)
    (ht : s.tables.get? T = some t) (hc : t.rows.get? r = some (c ++ [a])) (hxmax : a.xmax = none)
    (hxmin : a.xmin = txn ∨ s.status a.xmin = .committed) : ∃ m', Precise ok
      (s.written txn T (t.withChain r (c ++ [{ a with xmax := some txn }])) [] (.delete T r))
      h.committed (s.written txn T (t.withChain r (c ++ [{ a with xmax := some txn }])) []
        (.delete T r)).logs m' := by
  have hwf := hrows.wellFormed T t ht
  have hxmin' : a.xmin = txn ∨ a.xmin ∈ h.committed := hxmin.imp_right fun hs =>
    hreg.chained.creator_committed hreg.ledger (T := T) ⟨t, ht, hc⟩ (by simp) hs
  refine ⟨m.died T r a.seq (s.logs txn).length, hp.rewritten hreg.ledger hcat hrows hx
    r ⟨ht, rfl, rfl, rfl, rfl, rfl, rfl, rfl, rfl, rfl, fun _ _ => rfl,
      fun _ _ ix hix => ⟨ix.entries, hix⟩⟩ rfl rfl rfl
    (fun T' hT => ⟨rfl, death_died_of_table_ne hT⟩) (fun _ _ _ => rfl)
    (fun r' v hv hne => death_died_of_ne ?_) (fun i hi ix hix => ?_) ?_
    (fun y hy hyx => ?_) fun v hv => ?_⟩
  · rintro rfl hseq
    exact hne rfl (hwf.eq_of_seq hv ⟨_, hc, by simp⟩ hseq ▸ hxmax)
  · exact (hp.exact T t i ix ht hi hix).congr (holds_withChain hc (by simp [core]))
  · exact .delete rfl death_died_self (hp.tail_before_stamp hwf
      (fun hm => hx (hreg.ledger.ended txn hm)) ht hc hxmax (fun _ _ => rfl)
      fun k hk => death_died_of_ne fun _ => hk)
  · obtain ⟨hnil, hnot⟩ := hp.tails_stamped ht hc hxmax hxmin' hy hyx
    rw [hnil]
    exact .none hnot
  · exact kept_of_stamp hc hxmax hv

lemma update (hreg : Registry s h) (hcat : Catalog s) (hrows : Rows s) (hx : txn ∉ h.ended)
    (ht : s.tables.get? T = some t) (hc : t.rows.get? r = some (c ++ [a])) (hxmax : a.xmax = none)
    (hxmin : a.xmin = txn ∨ s.status a.xmin = .committed)
    (hplan : s.planEntries txn T row r t.nextSeq (some r) = .ok planned)
    (hkeyed : RowOk ok s T row) :
    ∃ m', Precise ok (s.written txn T (t.withUpdate txn r c a row) planned (.update T r))
      h.committed (s.written txn T (t.withUpdate txn r c a row) planned (.update T r)).logs m' := by
  have hwf := hrows.wellFormed T t ht
  have hxmin' : a.xmin = txn ∨ a.xmin ∈ h.committed := hxmin.imp_right fun hs =>
    hreg.chained.creator_committed hreg.ledger (T := T) ⟨t, ht, hc⟩ (by simp) hs
  have hbirth : ∀ r' v, Stored t.rows r' v → ((m.died T r a.seq (s.logs txn).length).born T r
      t.nextSeq (s.logs txn).length).birth T r' v.seq = m.birth T r' v.seq :=
    fun r' v hv => birth_born_of_ne fun _ => ne_of_lt (hwf.seq_lt r' v hv)
  refine ⟨(m.died T r a.seq (s.logs txn).length).born T r t.nextSeq (s.logs txn).length,
    hp.rewritten hreg.ledger hcat hrows hx r (written_localChange ht hplan rfl rfl rfl rfl) rfl rfl
      rfl
      (fun T' hT => ⟨birth_born_of_table_ne hT, death_died_of_table_ne hT⟩) hbirth
      (fun r' v hv hne => death_died_of_ne ?_)
      (hp.exact_written hrows ht hplan hkeyed (holds_withUpdate hc)) ?_ (fun y hy hyx => ?_)
      fun v hv => ?_⟩
  · rintro rfl hseq
    exact hne rfl (hwf.eq_of_seq hv ⟨_, hc, by simp⟩ hseq ▸ hxmax)
  · exact .update rfl rfl rfl death_died_self birth_born_self
      (hp.tail_before_stamp hwf (fun hm => hx (hreg.ledger.ended txn hm)) ht hc hxmax
        (fun v hv => hbirth r v ⟨_, hc, hv⟩) fun k hk => death_died_of_ne fun _ => hk)
  · obtain ⟨hnil, hnot⟩ := hp.tails_stamped ht hc hxmax hxmin' hy hyx
    rw [hnil]
    refine .none fun v hv => ?_
    rw [append_cons] at hv
    rcases mem_snoc.mp hv with hv | rfl
    · exact hnot v hv
    · exact ⟨Ne.symm hyx, nofun⟩
  · rw [append_cons] at hv
    rcases mem_snoc.mp hv with hv | rfl
    · exact kept_of_stamp hc hxmax hv
    · exact .new (some r) rfl birth_born_self
        (fun r' hr heq => hr (some.inj heq)) (planned_for ht hplan)

end Precise

end VaubanDB
