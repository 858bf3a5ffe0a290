import VaubanDB.Memory.Chains
import VaubanDB.Memory.Engine
import VaubanDB.Memory.IndexOrder

/-!
What ties an index to its table.

`Linked status t ix` holds of every index in every run: the entries are sorted, an entry whose
version is still stored carries the key of that version, and every stored version whose creator has
not aborted has its entry.  It says nothing of entries whose version is gone, which can be removed
in any order (`Linked.removeVersion`).
-/

namespace VaubanDB

open List Except

structure Linked (status : TxnId → TxnStatus) (t : Table) (ix : Index) : Prop where
  order_eq : KeyOrder.new "index key" ix.shape.columns t.shape = .ok ix.order
  sorted : ix.Sorted
  seq_lt : ∀ e ∈ ix.entries, e.version < t.nextSeq
  key_eq : ∀ e ∈ ix.entries, ∀ v, Stored t.rows e.row v → v.seq = e.version →
    ix.order.extract v.data = .ok e.key
  covers : ∀ r v, Stored t.rows r v → status v.xmin ≠ .aborted →
    ∃ e ∈ ix.entries, e.row = r ∧ e.version = v.seq

variable {v : Version}

namespace Linked

variable {status status' : TxnId → TxnStatus} {t t' : Table} {ix ix' : Index}

variable (h : Linked status t ix)
include h

lemma entry_eq {e f : IndexEntry} (he : e ∈ ix.entries)
    (hf : f ∈ ix.entries) (hrow : e.row = f.row) (hversion : e.version = f.version)
    (hv : Stored t.rows e.row v) (hseq : v.seq = e.version) : e = f := by
  have hke := h.key_eq e he v hv hseq
  have hkf := h.key_eq f hf v (hrow ▸ hv) (hseq.trans hversion)
  have hkey : e.key = f.key := ok.inj (hke.symm.trans hkf)
  cases e
  cases f
  simp_all

lemma extract_isOk {row : Row} (hrow : row.length = t.arity) : ∃ k, ix.order.extract row = .ok k :=
  KeyOrder.extract_isOk fun c hc => hrow ▸ KeyOrder.new_position_lt h.order_eq c hc

lemma shrink (hshape : t'.shape = t.shape)
    (hrows : Shrinks t.rows t'.rows) (hseq : t.nextSeq ≤ t'.nextSeq)
    (hstatus : ∀ x, status' x ≠ .aborted → status x ≠ .aborted) : Linked status' t' ix where
  order_eq := hshape ▸ h.order_eq
  sorted := h.sorted
  seq_lt := fun e he => (h.seq_lt e he).trans_le hseq
  key_eq := by
    intro e he v hv hve
    obtain ⟨w, hw, hcore⟩ := hrows _ v hv
    have hd : w.data = v.data := congrArg (fun p => p.2.1) hcore
    have hs : w.seq = v.seq := congrArg Prod.fst hcore
    exact hd ▸ h.key_eq e he w hw (hs.trans hve)
  covers := by
    intro r v hv hx
    obtain ⟨w, hw, hcore⟩ := hrows _ v hv
    have hmin : w.xmin = v.xmin := congrArg (fun p => p.2.2) hcore
    have hs : w.seq = v.seq := congrArg Prod.fst hcore
    obtain ⟨e, he, hr, hve⟩ := h.covers r w hw (hstatus _ (hmin ▸ hx))
    exact ⟨e, he, hr, hve.trans hs⟩

lemma congr_status
    (hstatus : ∀ x, status' x ≠ .aborted → status x ≠ .aborted) : Linked status' t ix :=
  h.shrink rfl (fun _ v hv => ⟨v, hv, rfl⟩) le_rfl hstatus

lemma insertEntry {r : RowId} {data : Row} {key : List Value} {pos : ℕ}
    (hshape : t'.shape = t.shape) (hseq : t'.nextSeq = t.nextSeq + 1)
    (hrows : ∀ r' v, Stored t'.rows r' v → (r' = r ∧ v.seq = t.nextSeq ∧ v.data = data) ∨
      (v.seq < t.nextSeq ∧ ∃ w, Stored t.rows r' w ∧ w.core = v.core))
    (hstatus : ∀ x, status' x ≠ .aborted → status x ≠ .aborted)
    (hkey : ix.order.extract data = .ok key) (hpos : ix.positionFor key r t.nextSeq = .ok pos) :
    pos ≤ ix.entries.length ∧ Linked status' t'
      { ix with entries := ix.entries.insertIdx pos ⟨key, r, t.nextSeq⟩ } := by
  have hnew : ∀ e ∈ ix.entries, ¬ (e.row = r ∧ e.version = t.nextSeq) := by
    intro e he heq
    have := h.seq_lt e he
    omega
  obtain ⟨hle, hsorted⟩ := h.sorted.insert (KeyOrder.length_of_extract hkey) hnew hpos
  refine ⟨hle, hshape ▸ h.order_eq, hsorted, ?_, ?_, ?_⟩
  · intro e he
    rcases (mem_insertIdx_iff hle).mp he with rfl | he
    · exact hseq ▸ Nat.lt_succ_self _
    · exact hseq ▸ Nat.lt_succ_of_lt (h.seq_lt e he)
  · intro e he v hv hve
    rcases (mem_insertIdx_iff hle).mp he with rfl | he
    · rcases hrows _ v hv with ⟨_, _, hd⟩ | ⟨hlt, _⟩
      · exact hd ▸ hkey
      · exact absurd hve (ne_of_lt hlt)
    · rcases hrows _ v hv with ⟨_, hs, _⟩ | ⟨_, w, hw, hcore⟩
      · exact absurd (hve.symm.trans hs) (ne_of_lt (h.seq_lt e he))
      · have hd : w.data = v.data := congrArg (fun p => p.2.1) hcore
        have hs : w.seq = v.seq := congrArg Prod.fst hcore
        exact hd ▸ h.key_eq e he w hw (hs.trans hve)
  · intro r' v hv hx
    rcases hrows r' v hv with ⟨rfl, hs, _⟩ | ⟨_, w, hw, hcore⟩
    · exact ⟨_, (mem_insertIdx_iff hle).mpr (.inl rfl), rfl, hs.symm⟩
    · have hmin : w.xmin = v.xmin := congrArg (fun p => p.2.2) hcore
      have hs : w.seq = v.seq := congrArg Prod.fst hcore
      obtain ⟨e, he, hr, hve⟩ := h.covers r' w hw (hstatus _ (hmin ▸ hx))
      exact ⟨e, (mem_insertIdx_iff hle).mpr (.inr he), hr, hve.trans hs⟩

lemma removeVersion {row : RowId} (hgone : ∀ w, Stored t.rows row w → w.seq ≠ v.seq)
    (hrem : ix.removeVersion row v = .ok ix') :
    Linked status t ix' ∧ ∃ entries, ix' = { ix with entries } := by
  rcases Index.removeVersion_cases hrem with rfl | ⟨i, e, hi, hrow, hversion, rfl⟩
  · exact ⟨h, _, rfl⟩
  · have hsub : (ix.entries.eraseIdx i).Sublist ix.entries := eraseIdx_sublist _ _
    refine ⟨⟨h.order_eq, h.sorted.sublist hsub, fun f hf => h.seq_lt f (hsub.subset hf),
      fun f hf => h.key_eq f (hsub.subset hf), ?_⟩, _, rfl⟩
    intro r w hw hx
    obtain ⟨f, hf, hr, hve⟩ := h.covers r w hw hx
    refine ⟨f, ?_, hr, hve⟩
    have hne : f ≠ e := by
      rintro rfl
      exact hgone w (hrow ▸ hr ▸ hw) (hve ▸ hversion)
    obtain ⟨j, hj⟩ := mem_iff_getElem?.mp hf
    refine mem_eraseIdx_iff_getElem?.mpr ⟨j, ?_, hj⟩
    rintro rfl
    exact hne (Option.mem_unique hj hi)

end Linked

/-! ### An index built from scratch -/

variable {t : Table}

lemma mem_versionsOf_iff {r : RowId} : (r, v) ∈ Inner.versionsOf t ↔ Stored t.rows r v := by
  simp only [Inner.versionsOf, mem_flatMap, mem_map, Prod.exists, Prod.mk.injEq, Stored,
    OrderedMap.get?_eq_some_iff]
  constructor
  · rintro ⟨r', c, hc, v', hv, rfl, rfl⟩
    exact ⟨c, hc, hv⟩
  · rintro ⟨c, hc, hv⟩
    exact ⟨r, c, hc, v, hv, rfl, rfl⟩

lemma versionsOf_distinct (h : t.WellFormed) : (Inner.versionsOf t).Pairwise
    fun x y => ¬ (x.1 = y.1 ∧ x.2.seq = y.2.seq) := by
  have heq : Inner.versionsOf t = (Table.sweep t.rows fun _ => true).1 := by
    simp [Inner.versionsOf, Table.sweep]
  rw [heq]
  exact Table.sweep_distinct h.seq_increasing

/-- The index holds the entries of the versions met so far. -/
structure Built (s : Inner) (done : List (RowId × Version)) (ix : Index) : Prop where
  sorted : ix.Sorted
  mem_iff : ∀ e, e ∈ ix.entries ↔ ∃ v, (e.row, v) ∈ done ∧ s.status v.xmin ≠ .aborted ∧
    v.seq = e.version ∧ ix.order.extract v.data = .ok e.key

variable {done : List (RowId × Version)} {ix : Index} {s : Inner}

lemma Built.step {item : RowId × Version} {ix' : Index} (h : Built s done ix)
    (hnew : ∀ x ∈ done, ¬ (x.1 = item.1 ∧ x.2.seq = item.2.seq))
    (hstep : s.indexVersion ix item = .ok ix') :
    Built s (done ++ [item]) ix' ∧ ix'.table = ix.table ∧ ix'.shape = ix.shape ∧
      ix'.order = ix.order := by
  obtain ⟨r, v⟩ := item
  rw [Inner.indexVersion] at hstep
  split_ifs at hstep with hx
  · cases hstep
    refine ⟨⟨h.sorted, fun e => ?_⟩, rfl, rfl, rfl⟩
    rw [h.mem_iff]
    refine exists_congr fun w => ⟨fun hw => ⟨by simp [hw.1], hw.2⟩, fun hw => ⟨?_, hw.2⟩⟩
    rcases mem_append.mp hw.1 with hm | hm
    · exact hm
    · simp only [mem_singleton, Prod.mk.injEq] at hm
      exact absurd (hm.2 ▸ hx) hw.2.1
  · obtain ⟨key, hkey, hstep⟩ := bind_eq_ok_iff.mp hstep
    obtain ⟨pos, hpos, hstep⟩ := bind_eq_ok_iff.mp hstep
    cases hstep
    have hfresh : ∀ e ∈ ix.entries, ¬ (e.row = r ∧ e.version = v.seq) := by
      intro e he heq
      obtain ⟨w, hw, _, hs, _⟩ := (h.mem_iff e).mp he
      exact hnew _ hw ⟨heq.1, hs.trans heq.2⟩
    obtain ⟨hle, hsorted⟩ := h.sorted.insert (KeyOrder.length_of_extract hkey) hfresh hpos
    refine ⟨⟨hsorted, fun e => ?_⟩, rfl, rfl, rfl⟩
    rw [mem_insertIdx_iff hle, h.mem_iff]
    constructor
    · rintro (rfl | ⟨w, hw, hrest⟩)
      · exact ⟨v, by simp, hx, rfl, hkey⟩
      · exact ⟨w, by simp [hw], hrest⟩
    · rintro ⟨w, hw, hxw, hs, hk⟩
      rcases mem_append.mp hw with hm | hm
      · exact .inr ⟨w, hm, hxw, hs, hk⟩
      · simp only [mem_singleton, Prod.mk.injEq] at hm
        obtain ⟨hr, rfl⟩ := hm
        have hkey' : key = e.key := ok.inj (hkey.symm.trans hk)
        left
        cases e
        simp_all

lemma Built.foldlM {rest : List (RowId × Version)} {ix' : Index} (h : Built s done ix)
    (hdistinct : (done ++ rest).Pairwise fun x y => ¬ (x.1 = y.1 ∧ x.2.seq = y.2.seq))
    (hfold : rest.foldlM s.indexVersion ix = .ok ix') :
    Built s (done ++ rest) ix' ∧ ix'.table = ix.table ∧ ix'.shape = ix.shape ∧
      ix'.order = ix.order := by
  induction rest generalizing done ix with
  | nil =>
    cases hfold
    exact ⟨by simpa using h, rfl, rfl, rfl⟩
  | cons item rest ih =>
    rw [foldlM_cons] at hfold
    obtain ⟨ix₁, hstep, hfold⟩ := bind_eq_ok_iff.mp hfold
    rw [append_cons] at hdistinct ⊢
    have hnew : ∀ x ∈ done, ¬ (x.1 = item.1 ∧ x.2.seq = item.2.seq) := fun x hx =>
      (pairwise_append.mp (pairwise_append.mp hdistinct).1).2.2 x hx item (by simp)
    obtain ⟨hb, ht, hs, ho⟩ := h.step hnew hstep
    obtain ⟨hb', ht', hs', ho'⟩ := ih hb hdistinct hfold
    exact ⟨hb', ht'.trans ht, hs'.trans hs, ho'.trans ho⟩

lemma prepareIndex_spec {table : TableId} {shape : IndexShape} {id : IndexId}
    {next : ℕ} (ht : s.tables.get? table = some t) (hwf : t.WellFormed)
    (h : s.prepareIndex table shape = .ok (id, next, ix)) :
    id = s.nextIndexId ∧ next = s.nextIndexId + 1 ∧ ix.table = table ∧ ix.shape = shape ∧
      Linked s.status t ix ∧ Built s (Inner.versionsOf t) ix ∧
      (shape.unique = true → ix.firstDuplicateKey t.rows s.status = .ok none) := by
  obtain ⟨t', ht', h⟩ := bind_eq_ok_iff.mp h
  rw [Inner.table, ht] at ht'
  cases ht'
  obtain ⟨order, horder, h⟩ := bind_eq_ok_iff.mp h
  cases hinc : shape.included.find? fun inc => decide (t.arity ≤ inc) with
  | some inc => simp [hinc, bug] at h
  | none =>
    simp only [hinc] at h
    obtain ⟨⟨id', next'⟩, hid, h⟩ := bind_eq_ok_iff.mp h
    obtain ⟨ix₁, hfold, h⟩ := bind_eq_ok_iff.mp h
    obtain ⟨duplicate, hdup, h⟩ := bind_eq_ok_iff.mp h
    cases duplicate with
    | some key => cases h
    | none =>
      cases h
      rw [nextId] at hid
      split_ifs at hid
      · cases hid
        have hnew : Built s [] (Index.new table shape order) :=
          ⟨Index.sorted_new _ _ _, fun e => by simp [Index.new]⟩
        obtain ⟨hb, htable, hshape, horder'⟩ :=
          hnew.foldlM (by simpa using versionsOf_distinct hwf) hfold
        rw [nil_append] at hb
        simp only [Index.new] at htable hshape horder'
        refine ⟨rfl, rfl, htable, hshape, ?_, hb, ?_⟩
        · refine ⟨by rw [hshape, horder', horder], hb.sorted, ?_, ?_, ?_⟩
          · intro e he
            obtain ⟨v, hv, _, hs, _⟩ := (hb.mem_iff e).mp he
            exact hs ▸ hwf.seq_lt _ v (mem_versionsOf_iff.mp hv)
          · intro e he w hw hws
            obtain ⟨v, hv, _, hs, hk⟩ := (hb.mem_iff e).mp he
            rwa [hwf.eq_of_seq hw (mem_versionsOf_iff.mp hv) (hws.trans hs.symm)]
          · intro r v hv hx
            obtain ⟨key, hkey⟩ : ∃ k, ix.order.extract v.data = .ok k := by
              refine KeyOrder.extract_isOk fun c hc => ?_
              rw [hwf.arity_eq r v hv]
              exact KeyOrder.new_position_lt horder c (horder' ▸ hc)
            exact ⟨⟨key, r, v.seq⟩,
              (hb.mem_iff _).mpr ⟨v, mem_versionsOf_iff.mpr hv, hx, rfl, hkey⟩, rfl, rfl⟩
        · intro hu
          rwa [Inner.duplicateKey, hshape, if_pos hu] at hdup
      · cases hid

end VaubanDB
