import VaubanDB.Memory.Healthy

/-!
What a snapshot sees.

`seen settled c` lists the versions of a chain that are seen when exactly the transactions of
`settled` count as done.  As long as the statuses say the same (`Reads`), every read of the
engine is a function of what is seen in the chains and of the definitions of the tables and
indexes; two states that agree on them (`SameView`) give the same answers.
-/

namespace VaubanDB

open Except (bind_eq_ok_iff bind_eq_error_iff)
open Option (bind_some map_eq_some_iff)
open MemoryStorage Index List

/-! ### Seen versions -/

/-- The version is seen when exactly the transactions of `settled` count as done. -/
def Version.SeenBy (settled : Set TxnId) (v : Version) : Prop :=
  v.xmin ∈ settled ∧ ∀ w, v.xmax = some w → w ∉ settled

open Classical in
/-- The seen versions of a chain: their serial numbers and contents. -/
noncomputable def seen (settled : Set TxnId) (c : List Version) : List (ℕ × Row) :=
  (c.filter fun v => decide (v.SeenBy settled)).map fun v => (v.seq, v.data)

variable {keep : Version → Bool} {d : Row}

section Seen

variable {settled : Set TxnId} {c : List Version}

lemma mem_seen_iff {n : ℕ} :
    (n, d) ∈ seen settled c ↔ ∃ v ∈ c, v.SeenBy settled ∧ v.seq = n ∧ v.data = d := by
  simp [seen, and_assoc]

lemma seen_without {x : TxnId} (hx : x ∉ settled) (c : List Version) :
    seen settled (without x c) = seen settled c := by
  classical
  induction c with
  | nil => rfl
  | cons v c ih =>
    have hcons : ∀ l : List Version, seen settled (v :: l) =
        seen settled [v] ++ seen settled l := by
      intro l
      by_cases hv : v.SeenBy settled <;> simp [seen, hv]
    have hone : seen settled (without x [v]) = seen settled [v] := by
      by_cases hxmin : v.xmin = x
      · have hv : ¬ v.SeenBy settled := fun h => hx (hxmin ▸ h.1)
        simp [without, seen, hxmin, hv]
      · by_cases hxmax : v.xmax = some x
        · have hv : v.SeenBy settled ↔ ({ v with xmax := none } : Version).SeenBy settled := by
            simp [Version.SeenBy, hxmax, hx]
          by_cases hs : v.SeenBy settled
          · have hs' := hv.mp hs
            simp [without, seen, Version.without, hxmin, hxmax, hs, hs']
          · have hs' : ¬ ({ v with xmax := none } : Version).SeenBy settled :=
              fun h => hs (hv.mpr h)
            simp [without, seen, Version.without, hxmin, hxmax, hs, hs']
        · simp [without, seen, Version.without, hxmin, hxmax]
    have happend : ∀ l l' : List Version, seen settled (l ++ l') =
        seen settled l ++ seen settled l' := by
      intro l l'
      simp [seen]
    rw [hcons, show v :: c = [v] ++ c from rfl, without_append, happend, hone, ih]

lemma seen_filter (h : ∀ v ∈ c, keep v = false → ¬ v.SeenBy settled) :
    seen settled (c.filter keep) = seen settled c := by
  classical
  rw [seen, seen, filter_filter]
  refine congrArg _ (filter_congr fun v hv => ?_)
  cases hk : keep v with
  | true => simp
  | false => simp [h v hv hk]

end Seen

/-! ### Collecting the rows of entries -/

/-- The row an entry leads to, if the snapshot sees its version. -/
def Inner.rowOf (s : Inner) (snap : Snapshot) (rows : OrderedMap RowId (List Version))
    (e : IndexEntry) : Option (RowId × Row) :=
  (findVersion rows e.row e.version).bind fun v =>
    if snap.isVisible s.status v.xmin v.xmax then some (e.row, v.data) else none

variable {es : List IndexEntry}

lemma collect_eq_ok_iff {s : Inner} {snap : Snapshot} {i : IndexId}
    {rows : OrderedMap RowId (List Version)} {out : List (RowId × Row)} :
    s.collect snap i rows es = .ok out ↔
      Resolves rows es ∧ out = es.filterMap (s.rowOf snap rows) := by
  induction es generalizing out with
  | nil => simp [Inner.collect, Resolves, eq_comm]
  | cons e es ih =>
    rcases hv : findVersion rows e.row e.version with _ | v
    · simp [Inner.collect, Resolves, hv, corruption]
    have hresolves : Resolves rows (e :: es) ↔ Resolves rows es := by simp [Resolves, hv]
    rw [Inner.collect, hv, hresolves, filterMap_cons, Inner.rowOf, hv]
    simp only [bind_eq_ok_iff, ih, bind_some]
    split_ifs <;> simp [eq_comm]

/-! ### Reads as functions of what is seen -/

/-- The snapshot sees the stored versions as `settled` does. -/
def Reads (snap : Snapshot) (settled : Set TxnId) (s : Inner) : Prop :=
  ∀ T t r v, s.tables.get? T = some t → Stored t.rows r v →
    (snap.isVisible s.status v.xmin v.xmax = true ↔ v.SeenBy settled)

variable {ok : Column → Value → Bool}

section Reads

variable {snap : Snapshot} {settled : Set TxnId} {s : Inner} {T : TableId} {t : Table}

lemma Reads.visible (h : Reads snap settled s) (ht : s.tables.get? T = some t) (r : RowId) :
    ((t.rows.get? r).bind (s.visible snap)).map Version.data =
      (seen settled (t.chainOf r)).head?.map Prod.snd := by
  classical
  rw [Table.chainOf]
  rcases hc : t.rows.get? r with _ | c
  · rfl
  rw [bind_some, Option.getD_some, Inner.visible, seen, head?_map, head?_filter, Option.map_map]
  have hfind : c.find? (fun v => snap.isVisible s.status v.xmin v.xmax) =
      c.find? fun v => decide (v.SeenBy settled) := by
    refine find?_congr fun v hv => ?_
    rw [Bool.eq_iff_iff, decide_eq_true_iff]
    exact h T t r v ht ⟨c, hc, hv⟩
  rw [hfind]
  rfl

lemma exists_visible_of_get (ht : s.tables.get? T = some t) {r : RowId}
    (h : s.get snap T r = .ok (some d)) :
    ∃ v, Stored t.rows r v ∧ snap.isVisible s.status v.xmin v.xmax = true ∧ v.data = d := by
  rw [Inner.get, Inner.table_eq_ok_iff.mpr ht] at h
  obtain ⟨v, hv, hd⟩ := map_eq_some_iff.mp (Except.ok.inj h)
  obtain ⟨c, hc, hfind⟩ := Option.bind_eq_some_iff.mp hv
  exact ⟨v, ⟨c, hc, mem_of_find?_eq_some hfind⟩, by simpa using find?_some hfind, hd⟩

lemma Reads.get (h : Reads snap settled s) (ht : s.tables.get? T = some t) (r : RowId) :
    s.get snap T r = .ok ((seen settled (t.chainOf r)).head?.map Prod.snd) := by
  rw [Inner.get, Inner.table_eq_ok_iff.mpr ht, ← h.visible ht r]
  rfl

lemma mem_visibleRows_iff {r : RowId} : (r, d) ∈ s.visibleRows snap t ↔
    ((t.rows.get? r).bind (s.visible snap)).map Version.data = some d := by
  rw [Inner.visibleRows, mem_filterMap]
  constructor
  · rintro ⟨⟨r', c⟩, hmem, hitem⟩
    obtain ⟨v, hv, hrd⟩ := map_eq_some_iff.mp hitem
    cases hrd
    rw [OrderedMap.get?_eq_some_iff.mpr hmem, bind_some, hv]
    rfl
  · intro h
    obtain ⟨v, hv, rfl⟩ := map_eq_some_iff.mp h
    obtain ⟨c, hc, hvis⟩ := Option.bind_eq_some_iff.mp hv
    exact ⟨(r, c), OrderedMap.get?_eq_some_iff.mp hc, by simp [hvis]⟩

lemma visibleRows_sorted (s : Inner) (snap : Snapshot) (t : Table) :
    (s.visibleRows snap t).Pairwise fun a b => a.1 < b.1 := by
  rw [Inner.visibleRows, pairwise_filterMap]
  refine t.rows.sorted.imp ?_
  rintro ⟨r, c⟩ ⟨r', c'⟩ hlt a ha b hb
  obtain ⟨_, _, rfl⟩ := map_eq_some_iff.mp ha
  obtain ⟨_, _, rfl⟩ := map_eq_some_iff.mp hb
  exact hlt

noncomputable def seenEntry (settled : Set TxnId) (chain : RowId → List Version)
    (e : IndexEntry) : Option (RowId × Row) :=
  ((seen settled (chain e.row)).find? fun p => p.1 == e.version).map fun p => (e.row, p.2)

/-- A collection of entries that all lead to versions lists those that are seen. -/
lemma Reads.collect (h : Reads snap settled s) (ht : s.tables.get? T = some t)
    (hwf : t.WellFormed) (i : IndexId) (hes : Resolves t.rows es) :
    s.collect snap i t.rows es = .ok (es.filterMap (seenEntry settled t.chainOf)) := by
  refine collect_eq_ok_iff.mpr ⟨hes, filterMap_congr fun e he => ?_⟩
  obtain ⟨v, hv⟩ := hes e he
  obtain ⟨hstored, hseq⟩ := findVersion_eq_some hv
  -- the version of the entry is the only one of its serial number
  have honly : ∀ w ∈ t.chainOf e.row, w.seq = e.version → w = v := fun w hw hws =>
    hwf.eq_of_seq (mem_chainOf_iff.mp hw) hstored (hws.trans hseq.symm)
  rw [seenEntry, Inner.rowOf, hv, bind_some]
  split_ifs with hvis
  · have hmem : (v.seq, v.data) ∈ seen settled (t.chainOf e.row) :=
      mem_seen_iff.mpr ⟨v, mem_chainOf_iff.mpr hstored, (h T t _ v ht hstored).mp hvis, rfl, rfl⟩
    cases hp : (seen settled (t.chainOf e.row)).find? fun p => p.1 == e.version with
    | none =>
      have := find?_eq_none.mp hp _ hmem
      simp [hseq] at this
    | some p =>
      obtain ⟨n, d⟩ := p
      have hn : n = e.version := by simpa using find?_some hp
      obtain ⟨w, hw, _, hws, rfl⟩ := mem_seen_iff.mp (mem_of_find?_eq_some hp)
      rw [honly w hw (hws.trans hn)]
      rfl
  · rw [Option.map_eq_none_iff, find?_eq_none]
    rintro ⟨n, d⟩ hmem hn
    obtain ⟨w, hw, hsw, hws, _⟩ := mem_seen_iff.mp hmem
    have hn : n = e.version := by simpa using hn
    rw [honly w hw (hws.trans hn)] at hsw
    exact hvis ((h T t _ v ht hstored).mpr hsw)

lemma seenEntry_isSome_iff (settled : Set TxnId) {ix : Index} (hwf : t.WellFormed)
    (hexact : Exact ok t ix) {e : IndexEntry} :
    (e ∈ ix.entries ∧ (seenEntry settled t.chainOf e).isSome = true) ↔
      ∃ d, (e.version, d) ∈ seen settled (t.chainOf e.row) ∧ ix.order.extract d = .ok e.key := by
  have hsome : (seenEntry settled t.chainOf e).isSome = true ↔
      ∃ d, (e.version, d) ∈ seen settled (t.chainOf e.row) := by
    rw [seenEntry, Option.isSome_map, find?_isSome]
    constructor
    · rintro ⟨⟨n, d⟩, hmem, hn⟩
      obtain rfl : n = e.version := by simpa using hn
      exact ⟨d, hmem⟩
    · rintro ⟨d, hmem⟩
      exact ⟨_, hmem, by simp⟩
  rw [hsome]
  constructor
  · rintro ⟨he, d, hd⟩
    obtain ⟨data, ⟨v, hv, hseq, rfl⟩, hkey⟩ := (hexact.lists e).mp he
    obtain ⟨w, hw, _, hws, rfl⟩ := mem_seen_iff.mp hd
    obtain rfl := hwf.eq_of_seq hv (mem_chainOf_iff.mp hw) (hseq.trans hws.symm)
    exact ⟨v.data, hd, hkey⟩
  · rintro ⟨d, hd, hkey⟩
    obtain ⟨w, hw, _, hws, rfl⟩ := mem_seen_iff.mp hd
    exact ⟨(hexact.lists e).mpr ⟨w.data, ⟨w, mem_chainOf_iff.mp hw, hws, rfl⟩, hkey⟩, _, hd⟩

end Reads

/-! ### Positions in an index of typed keys -/

def KeyRange.keys : KeyRange → List (List Value)
  | .full => []
  | .point k => [k]
  | .between lo hi => lo.key?.toList ++ hi.key?.toList

/-- The values of the range can be compared with themselves. -/
def KeyRange.Comparable (range : KeyRange) : Prop :=
  ∀ p ∈ range.keys, ∀ v ∈ p, v.selfComparable = true

def Index.Typed (ix : Index) : Prop := ∀ e ∈ ix.entries, ix.order.Fits e.key

variable {range : KeyRange}

namespace Index

variable {ix : Index}

/-- The checks of a seek on its range, before any search. -/
def checkRange (ix : Index) : KeyRange → SqlResult Unit
  | .full => .ok ()
  | .point k => ix.order.checkPrefix k
  | .between lo hi => do
      ix.checkBound lo
      ix.checkBound hi

variable {p : List Value}

lemma fits_of_checkPrefix (h : ix.order.checkPrefix p = .ok ())
    (hp : ∀ v ∈ p, v.selfComparable = true) : ix.order.Fits p := by
  intro i c v hc hv
  rw [Column.fits, Bool.and_eq_true]
  exact ⟨(KeyOrder.checkPrefix_eq_ok h).2 i c v hc hv, hp v (mem_of_getElem? hv)⟩

lemma search_total (hix : ix.Typed) (hp : ix.order.Fits p) :
    (∃ pos, ix.lowerBound p = .ok pos) ∧ ∃ pos, ix.upperBound p = .ok pos := by
  constructor <;> refine BinarySearch.partitionPoint_total fun e he => ?_ <;>
  · obtain ⟨o, ho⟩ := KeyOrder.comparePrefix_total (hix e he) hp
    exact ⟨_, by rw [ho]; rfl⟩

lemma bound_total (hix : ix.Typed) {b : Bound} (hb : ix.checkBound b = .ok ())
    (hv : ∀ p, b.key? = some p → ∀ v ∈ p, v.selfComparable = true) :
    (∃ pos, ix.startOf b = .ok pos) ∧ ∃ pos, ix.stopOf b = .ok pos := by
  cases b with
  | unbounded => exact ⟨⟨0, rfl⟩, ⟨_, rfl⟩⟩
  | included p =>
    have hp := fits_of_checkPrefix hb (hv p rfl)
    exact search_total hix hp
  | excluded p =>
    have hp := fits_of_checkPrefix hb (hv p rfl)
    exact (search_total hix hp).symm

lemma positions_total (hix : ix.Typed) (hrange : range.Comparable)
    (hcheck : ix.checkRange range = .ok ()) : ∃ p, ix.positions range = .ok p := by
  cases range with
  | full => exact ⟨_, rfl⟩
  | point k =>
    have hp := fits_of_checkPrefix hcheck (hrange k (by simp [KeyRange.keys]))
    obtain ⟨⟨start, hstart⟩, stop, hstop⟩ := search_total hix hp
    exact ⟨(start, max stop start), bind_eq_ok_iff.mpr ⟨(), hcheck,
      bind_eq_ok_iff.mpr ⟨start, hstart, bind_eq_ok_iff.mpr ⟨stop, hstop, rfl⟩⟩⟩⟩
  | between lo hi =>
    obtain ⟨_, hlo, hhi⟩ := bind_eq_ok_iff.mp hcheck
    obtain ⟨start, hstart⟩ := (bound_total hix hlo fun p hp =>
      hrange p (by simp [KeyRange.keys, hp])).1
    obtain ⟨stop, hstop⟩ := (bound_total hix hhi fun p hp =>
      hrange p (by simp [KeyRange.keys, hp])).2
    exact ⟨(start, max stop start), bind_eq_ok_iff.mpr ⟨(), hlo,
      bind_eq_ok_iff.mpr ⟨(), hhi, bind_eq_ok_iff.mpr ⟨start, hstart,
        bind_eq_ok_iff.mpr ⟨stop, hstop, rfl⟩⟩⟩⟩⟩

lemma positions_of_checkRange {e : SqlError}
    (hcheck : ix.checkRange range = .error e) : ix.positions range = .error e := by
  cases range with
  | full => cases hcheck
  | point k => exact bind_eq_error_iff.mpr (.inl hcheck)
  | between lo hi =>
    rcases bind_eq_error_iff.mp hcheck with hlo | ⟨_, hlo, hhi⟩
    · exact bind_eq_error_iff.mpr (.inl hlo)
    · exact bind_eq_error_iff.mpr (.inr ⟨(), hlo, bind_eq_error_iff.mpr (.inl hhi)⟩)

lemma checkRange_congr {ix' : Index} (h : ix'.order = ix.order) (range : KeyRange) :
    ix'.checkRange range = ix.checkRange range := by
  have hbound : ∀ b, ix'.checkBound b = ix.checkBound b := fun b => by
    rw [checkBound, checkBound, h]
  cases range with
  | full => rfl
  | point k => rw [checkRange, checkRange, h]
  | between lo hi => rw [checkRange, checkRange, hbound, hbound]

end Index

/-! ### Two states with the same view -/

/-- The same tables and indexes are defined, and the same versions are seen. -/
structure SameView (settled : Set TxnId) (s s' : Inner) : Prop where
  catalog : SameCatalog s s'
  chains : ∀ T r, seen settled (s'.chainOf T r) = seen settled (s.chainOf T r)

namespace SameView

variable {settled : Set TxnId} {s s₁ s' : Inner}

lemma refl (settled : Set TxnId) (s : Inner) : SameView settled s s := ⟨.refl s, fun _ _ => rfl⟩

lemma trans (h : SameView settled s s₁) (h' : SameView settled s₁ s') : SameView settled s s' :=
  ⟨h.catalog.trans h'.catalog, fun T r => (h'.chains T r).trans (h.chains T r)⟩

lemma of_framed {x : TxnId} (hx : x ∉ settled) (h : Framed x s s') : SameView settled s s' :=
  ⟨h.catalog, fun T r => by rw [← seen_without hx (s'.chainOf T r), h.chains T r, seen_without hx]⟩

lemma of_swept (h : Swept keep s s')
    (hkeep : ∀ T t r v, s.tables.get? T = some t → Stored t.rows r v → keep v = false →
      ¬ v.SeenBy settled) : SameView settled s s' := by
  refine ⟨h.catalog, fun T r => ?_⟩
  rcases h.chains T r with hc | hc
  · rw [hc]
  · rw [hc]
    refine seen_filter fun v hv hk => ?_
    cases ht : s.tables.get? T with
    | none => simp [Inner.chainOf, ht] at hv
    | some t =>
      rw [Inner.chainOf_eq ht] at hv
      exact hkeep T t r v ht (mem_chainOf_iff.mp hv) hk

variable {snap : Snapshot} (h : SameView settled s s')
include h

lemma chainOf {T : TableId} {t t' : Table} (ht : s.tables.get? T = some t)
    (ht' : s'.tables.get? T = some t') (r : RowId) :
    seen settled (t'.chainOf r) = seen settled (t.chainOf r) := by
  rw [← Inner.chainOf_eq ht, ← Inner.chainOf_eq ht', h.chains]

variable (hs : Reads snap settled s) (hs' : Reads snap settled s')
include hs hs'

theorem get (T : TableId) (r : RowId) : s'.get snap T r = s.get snap T r := by
  cases ht : s.tables.get? T with
  | none =>
    rw [Inner.get, Inner.get, Inner.table, Inner.table, ht, h.catalog.table_none ht]
    rfl
  | some t =>
    obtain ⟨t', ht', _⟩ := h.catalog.exists_table ht
    rw [hs.get ht, hs'.get ht', h.chainOf ht ht']

theorem scan (T : TableId) : s'.scan snap T = s.scan snap T := by
  cases ht : s.tables.get? T with
  | none =>
    rw [Inner.scan, Inner.scan, Inner.table, Inner.table, ht, h.catalog.table_none ht]
    rfl
  | some t =>
    obtain ⟨t', ht', hheader⟩ := h.catalog.exists_table ht
    have hrows : s'.visibleRows snap t' = s.visibleRows snap t := by
      refine eq_of_mem_iff_of_pairwise (fun a => lt_irrefl a.1)
        (fun a b (hab : a.1 < b.1) => lt_asymm hab) (visibleRows_sorted s' snap t')
        (visibleRows_sorted s snap t) ?_
      rintro ⟨r, d⟩
      rw [mem_visibleRows_iff, mem_visibleRows_iff, hs.visible ht, hs'.visible ht',
        h.chainOf ht ht']
    have hclustered : t'.clustered = t.clustered := congrArg (fun p => p.2.2.1) hheader
    rw [Inner.scan, Inner.scan, Inner.table_eq_ok_iff.mpr ht, Inner.table_eq_ok_iff.mpr ht']
    simp only [bind, Except.bind, hrows, hclustered]

theorem seek (hcat : Catalog s) (hrows : Rows s) (hrows' : Rows s') {i : IndexId}
    (hexact : ∀ T t ix, s.tables.get? T = some t → i ∈ t.indexes.keys →
      s.indexes.get? i = some ix → Exact ok t ix ∧ ix.Typed)
    (hexact' : ∀ T t ix, s'.tables.get? T = some t → i ∈ t.indexes.keys →
      s'.indexes.get? i = some ix → Exact ok t ix ∧ ix.Typed)
    (hrange : range.Comparable) (dir : Direction) :
    s'.seek snap i range dir = s.seek snap i range dir := by
  cases hix : s.indexes.get? i with
  | none =>
    have hix' := h.catalog.indexes i
    rw [hix, Option.map_none, Option.map_eq_none_iff] at hix'
    rw [Inner.seek, Inner.seek, Inner.index, Inner.index, hix, hix']
    rfl
  | some ix =>
    obtain ⟨ix', hix', hiheader⟩ := h.catalog.exists_index hix
    obtain ⟨t, ht, hi⟩ := hcat.owned i ix hix
    obtain ⟨t', ht', htheader⟩ := h.catalog.exists_table ht
    have htable : ix'.table = ix.table := congrArg Prod.fst hiheader
    have horder : ix'.order = ix.order := congrArg (fun p => p.2.2) hiheader
    have hi' : i ∈ t'.indexes.keys := by
      rwa [show t'.indexes = t.indexes from congrArg (fun p => p.2.2.2) htheader]
    obtain ⟨hex, htyped⟩ := hexact _ t ix ht hi hix
    obtain ⟨hex', htyped'⟩ := hexact' _ t' ix' ht' hi' hix'
    have hsorted := (hrows.linked _ t i ix ht hi hix).sorted
    have hsorted' := (hrows'.linked _ t' i ix' ht' hi' hix').sorted
    rw [Inner.seek, Inner.seek, Inner.index_eq_ok_iff.mpr hix, Inner.index_eq_ok_iff.mpr hix']
    simp only [bind, Except.bind, htable, ht, ht']
    cases hcheck : ix.checkRange range with
    | error e =>
      rw [positions_of_checkRange hcheck,
        positions_of_checkRange ((checkRange_congr horder range).trans hcheck)]
    | ok _ =>
      obtain ⟨⟨start, stop⟩, hpos⟩ := positions_total htyped hrange hcheck
      obtain ⟨⟨start', stop'⟩, hpos'⟩ := positions_total htyped' hrange
        ((checkRange_congr horder range).trans hcheck)
      -- the same entries lead to seen versions, and both lists are sorted
      have hentries : (slice ix'.entries start' stop').filter
            (fun e => (seenEntry settled t'.chainOf e).isSome) =
          (slice ix.entries start stop).filter fun e => (seenEntry settled t.chainOf e).isSome := by
        have hpair := hsorted'.pairwise
        rw [horder] at hpair
        refine eq_of_mem_iff_of_pairwise (fun _ => EntryLt.irrefl) (fun _ _ => EntryLt.asymm)
          ((hpair.sublist (slice_sublist _ _ _)).filter _)
          ((hsorted.pairwise.sublist (slice_sublist _ _ _)).filter _) fun e => ?_
        have hmem := seenEntry_isSome_iff settled (hrows.wellFormed _ t ht) hex (e := e)
        have hmem' := seenEntry_isSome_iff settled (hrows'.wellFormed _ t' ht') hex' (e := e)
        rw [h.chainOf ht ht', horder, ← hmem] at hmem'
        rw [mem_filter, mem_filter, mem_positions_iff hsorted hpos,
          mem_positions_iff hsorted' hpos', horder]
        tauto
      have hfun : seenEntry settled t'.chainOf = seenEntry settled t.chainOf := by
        funext e
        rw [seenEntry, seenEntry, h.chainOf ht ht']
      simp only [hpos, hpos']
      rw [hs.collect ht (hrows.wellFormed _ t ht) i (hex.resolves.sublist (slice_sublist _ _ _)),
        hs'.collect ht' (hrows'.wellFormed _ t' ht') i
          (hex'.resolves.sublist (slice_sublist _ _ _)),
        ← filterMap_filter_isSome, hentries, hfun, filterMap_filter_isSome]

end SameView

end VaubanDB
