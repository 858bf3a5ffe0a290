import VaubanDB.Memory.Erasure
import VaubanDB.Memory.OneVersion

/-!
A seek is the scan, filtered by the range and in the order of the index.

The entries between the two positions of a range are those of its keys, in order, and they lead
to the versions the snapshot sees.  The scan lists the same versions as long as the snapshot sees
one version of a row.  A snapshot that counts a middle writer of a row as active and a later one as
done sees several: the protocol of the storage takes none, the manager of `vauban-txn` can, between
the commit of the storage and the removal from its list, unless the rows are locked.
-/

namespace VaubanDB

open MemoryStorage

/-- The order of an index on rows: by key, then by identifier. -/
def KeyOrder.RowLt (order : KeyOrder) (a b : RowId × Row) : Prop :=
  ∃ k l, order.extract a.2 = .ok k ∧ order.extract b.2 = .ok l ∧
    (order.comparePrefix k l = .ok .lt ∨ (order.comparePrefix k l = .ok .eq ∧ a.1 < b.1))

section Seek

variable {s : Inner} (snap : Snapshot) {i : IndexId} {ix : Index} {t : Table}

lemma seek_total (hix : s.indexes.get? i = some ix) (ht : s.tables.get? ix.table = some t)
    (hexact : Exact Column.fits t ix) {range : KeyRange} (hrange : range.Comparable)
    (hcheck : ix.checkRange range = .ok ()) : ∃ es : List IndexEntry, es.Sublist ix.entries ∧
      s.seek snap i range .forward = .ok (es.filterMap (s.rowOf snap t.rows)) ∧
      s.seek snap i range .backward = .ok (es.filterMap (s.rowOf snap t.rows)).reverse := by
  obtain ⟨⟨start, stop⟩, hpos⟩ := Index.positions_total hexact.keys hrange hcheck
  have hsub := slice_sublist ix.entries start stop
  have hcollect : s.collect snap i t.rows (slice ix.entries start stop) = .ok _ :=
    collect_eq_ok_iff.mpr ⟨hexact.resolves.sublist hsub, rfl⟩
  refine ⟨_, hsub, ?_, ?_⟩ <;>
  · rw [Inner.seek, Inner.index_eq_ok_iff.mpr hix]
    simp [bind, Except.bind, ht, hpos, hcollect]

lemma rows_pairwise {snap : Snapshot} (hlinked : Linked s.status t ix) {es : List IndexEntry}
    (hsub : es.Sublist ix.entries)
    (hnodup : ((es.filterMap (s.rowOf snap t.rows)).map Prod.fst).Nodup) :
    (es.filterMap (s.rowOf snap t.rows)).Pairwise ix.order.RowLt := by
  rw [List.nodup_iff_pairwise_ne, List.pairwise_map, List.pairwise_filterMap] at hnodup
  rw [List.pairwise_filterMap]
  refine ((hlinked.sorted.pairwise.sublist hsub).and hnodup).imp_of_mem ?_
  rintro e f he hf ⟨hlt, hne⟩ ⟨r, d⟩ hrd ⟨r', d'⟩ hrd'
  have hrow : r ≠ r' := hne _ hrd _ hrd'
  obtain ⟨v, hv, _, rfl, rfl⟩ := Inner.OneVisible.rowOf_eq_some_iff.mp hrd
  obtain ⟨v', hv', _, rfl, rfl⟩ := Inner.OneVisible.rowOf_eq_some_iff.mp hrd'
  obtain ⟨hstored, hseq⟩ := findVersion_eq_some hv
  obtain ⟨hstored', hseq'⟩ := findVersion_eq_some hv'
  refine ⟨e.key, f.key, hlinked.key_eq e (hsub.subset he) v hstored hseq,
    hlinked.key_eq f (hsub.subset hf) v' hstored' hseq', hlt.lt.imp_right ?_⟩
  rintro ⟨heq, hid | ⟨hid, _⟩⟩
  · exact ⟨heq, hid⟩
  · exact absurd hid hrow

end Seek

/-- When key values have the types of their columns and the own transaction of the snapshot
writes rows whose last writer counts as done, a seek lists exactly the rows of the scan whose key
lies in its range, each once, in the order of the index or in its reverse. -/
theorem seek_is_filtered_scan {w₀ w : World} {own : TxnId} {snap : Snapshot}
    (hsnap : w₀.manager.snapshotFor own = snap)
    (h₀ : w₀.Reachable fun s c => c.Keyed Column.fits s)
    (h : w₀.Leads (fun s c => c.SettledWrites snap s ∧ c.Keyed Column.fits s) w)
    {i : IndexId} {ix : Index} (hix : w.inner.indexes.get? i = some ix) {range : KeyRange}
    (hrange : range.Comparable) (hcheck : ix.checkRange range = .ok ())
    {scanned : List (RowId × Row)} (hscan : w.inner.scan snap ix.table = .ok scanned) :
    ∃ rows, w.inner.seek snap i range .forward = .ok rows ∧
      w.inner.seek snap i range .backward = .ok rows.reverse ∧
      rows.Pairwise ix.order.RowLt ∧ (rows.map Prod.fst).Nodup ∧
      ∀ r d, (r, d) ∈ rows ↔ (r, d) ∈ scanned ∧
        ∃ k, ix.order.extract d = .ok k ∧ Index.InRange ix.order k range := by
  have hone := World.oneVisible_of_leads hsnap (h₀.mono fun _ _ _ => trivial)
    (h.mono fun _ _ hc => hc.1)
  have hreach : w.Reachable fun s c => c.Keyed Column.fits s :=
    Relation.ReflTransGen.trans h₀ (h.mono fun _ _ hc => hc.2)
  obtain ⟨hcat, hrows, hreg, m, hp⟩ := hreach.site.tracked
    (fun _ _ hc => (Bool.and_eq_true_iff.mp hc).2) fun _ _ hc => hc
  obtain ⟨t, ht, hi⟩ := hcat.owned i ix hix
  obtain ⟨es, hsub, hforward, hbackward⟩ :=
    seek_total snap hix ht (hp.exact _ t i ix ht hi hix) hrange hcheck
  obtain ⟨hnodup, hsound, hall⟩ := hone.seek hcat hrows hix hforward
  refine ⟨_, hforward, hbackward,
    rows_pairwise (hrows.linked _ t i ix ht hi hix) hsub hnodup, hnodup, fun r d => ?_⟩
  rw [(Inner.OneVisible.scan hscan).2 r d]
  refine ⟨hsound r d, ?_⟩
  rintro ⟨hget, k, hkey, hin⟩
  exact hall (fun t' r' v ht' hv _ => hp.creator_not_aborted hreg.ledger ht' hv) r d k hget hkey hin

/-- Three integers in a column with a unique index; the second row is deleted, and its key inserted
again. -/
def keyedRows : World := World.initial.run
  [.call (.createDatabase "d"), .call (.createTable 1 ⟨[⟨.int, true, none⟩], none⟩),
    .call (.createIndex 1 ⟨[⟨0, false⟩], true, []⟩), .begin, .call (.insert 1 1 [.i32 7]),
    .call (.insert 1 1 [.i32 9]), .call (.insert 1 1 [.i32 8]), .call (.commit 1), .begin,
    .call (.delete 2 1 2), .call (.insert 2 1 [.i32 9]), .call (.commit 2)]

/-- A seek of the keys from `8` on lists the two rows it leads to, in the order of the keys, and
leaves the others out. -/
theorem rows_from_eight_are_sought :
    ∃ rows, keyedRows.inner.seek (keyedRows.manager.snapshotFor 3) 1
        (.between (.included [.i32 8]) .unbounded) .forward = .ok rows ∧
      keyedRows.inner.seek (keyedRows.manager.snapshotFor 3) 1
        (.between (.included [.i32 8]) .unbounded) .backward = .ok rows.reverse ∧
      rows = [(3, [.i32 8]), (4, [.i32 9])] ∧ ∀ d, (1, d) ∉ rows ∧ (2, d) ∉ rows := by
  have hreach : keyedRows.Reachable fun s c => c.Keyed Column.fits s :=
    World.Leads.run (by decide +kernel)
  obtain ⟨ix, hix, htable⟩ : ∃ ix, keyedRows.inner.indexes.get? 1 = some ix ∧ ix.table = 1 :=
    ⟨_, rfl, rfl⟩
  have hrange : (KeyRange.between (.included [.i32 8]) .unbounded).Comparable := by
    rintro p hp v hv
    obtain rfl : p = [.i32 8] := by simpa [KeyRange.keys, Bound.key?, eq_comm] using hp
    obtain rfl := List.mem_singleton.mp hv
    rfl
  have hscan : keyedRows.inner.scan (keyedRows.manager.snapshotFor 3) ix.table =
      .ok [(1, [.i32 7]), (3, [.i32 8]), (4, [.i32 9])] := by
    rw [htable]
    decide +kernel
  have hcheck : ix.checkRange (.between (.included [.i32 8]) .unbounded) = .ok () := by
    cases hix
    decide +kernel
  obtain ⟨rows, hforward, hbackward, -⟩ :=
    seek_is_filtered_scan rfl hreach .refl hix hrange hcheck hscan
  have hrows : keyedRows.inner.seek (keyedRows.manager.snapshotFor 3) 1
      (.between (.included [.i32 8]) .unbounded) .forward = .ok [(3, [.i32 8]), (4, [.i32 9])] := by
    decide +kernel
  refine ⟨rows, hforward, hbackward, Except.ok.inj (hforward.symm.trans hrows), fun d => ?_⟩
  obtain rfl := Except.ok.inj (hforward.symm.trans hrows)
  simp

/-- Three transactions write a row, one after the other. -/
def thriceWritten : List Call :=
  insertFloat (.f64 0) ++ [.commit 1, .update 2 1 1 [.f64 1], .commit 2, .update 3 1 1 [.f64 2],
    .commit 3]

/-- A snapshot that counts the second writer as active and the others as done sees two versions
of the row.  The scan lists the first and the seek lists both. -/
theorem torn_snapshot_sees_two_versions :
    (Site.initial.run thriceWritten).Reachable (fun _ _ => True) ∧
    (Site.initial.run thriceWritten).inner.scan ⟨1, 9, [2], 9⟩ 1 = .ok [(1, [.f64 0])] ∧
    (Site.initial.run thriceWritten).inner.seek ⟨1, 9, [2], 9⟩ 1 .full .forward =
      .ok [(1, [.f64 0]), (1, [.f64 2])] := by
  refine ⟨Site.Reachable.run .refl ?_, by decide +kernel, by decide +kernel⟩
  simp only [Site.Runs, thriceWritten, insertFloat, floatTable, List.cons_append, List.nil_append,
    Site.after, History.after, Call.txn?, Site.initial, History.empty, Option.some.injEq,
    forall_eq', implies_true, true_and, and_true, reduceCtorEq, false_implies]
  simp [Set.insert]

end VaubanDB
