import VaubanDB.Memory.Protocol
import VaubanDB.Memory.Views

/-!
A snapshot sees at most one version of a row.

In a chain, a version whose creator counts as done comes after versions whose deleters count as done
(`Covered`): a transaction only replaces the current version of a row, its own or a committed one.
Of the later writes, only those of the snapshot's own transaction count as done.
-/

namespace VaubanDB

open MemoryStorage List

/-- The own transaction of the snapshot writes rows whose last writer counts as done. -/
def Call.SettledWrites (snap : Snapshot) (s : Inner) : Call → Prop
  | .update txn T r _ | .delete txn T r => txn = snap.own →
      ∀ writer d, s.latestVersion T r = .ok (some (writer, d)) →
        snap.isSettled s.status writer = true
  | _ => True

/-- If the creator of `b` counts as done, so does the deleter of `a`. -/
def Covered (settled : Set TxnId) (a b : Version) : Prop :=
  b.xmin ∈ settled → ∃ x ∈ settled, a.xmax = some x

variable {settled : Set TxnId}

lemma covered_stamp (a b : Version) (y : Option TxnId)
    (h : Covered settled a b) : Covered settled a { b with xmax := y } := h

variable {r : RowId}

namespace World

variable {w₀ w : World} {own : TxnId} {snap : Snapshot}

lemma covered_of_superseded {a b : Version} (h : Superseded w₀.committed a b) :
    Covered (w₀.settled own) a b := by
  obtain ⟨x, hx, rfl | hc⟩ := h
  · exact fun hb => ⟨b.xmin, hb, hx⟩
  · exact fun _ => ⟨x, .inr hc, hx⟩

variable (hsnap : w₀.manager.snapshotFor own = snap)
include hsnap

/-- A creator that counts as done for the snapshot is one of those that did when it was taken. -/
lemma creator_mem_settled (hsince : Since w₀ w)
    (hreg : Registry w.inner w.site.history) {T : TableId} {c : List Version}
    (hc : w.inner.Chain T r c) {v : Version} (hv : v ∈ c)
    (h : snap.isSettled w.inner.status v.xmin = true) : v.xmin ∈ w₀.settled own :=
  mem_of_isSettled hsince (hreg.chained.creator_committed hreg.ledger hc hv) (hsnap ▸ h)

lemma covered_after (hord₀ : w₀.Ordered)
    (hended : ∀ x ∈ w₀.committed, x ∈ w₀.site.history.ended) (hsince : Since w₀ w)
    (hsound : Catalog w.inner ∧ Rows w.inner) (hreg : Registry w.inner w.site.history)
    (hcov : ∀ T r c, w.inner.Chain T r c → c.Pairwise (Covered (w₀.settled own))) (call : Call)
    (hopen : ∀ t, call.txn? = some t → t ∈ w.manager.opened)
    (hcall : call.SettledWrites snap w.inner) {T : TableId} {c' : List Version}
    (hc' : (call.after w.inner).Chain T r c') : c'.Pairwise (Covered (w₀.settled own)) := by
  cases call.chain_cases hsound.1 hsound.2 hc' with
  | trimmed hc htrim => exact htrim.pairwise covered_stamp (hcov T r _ hc)
  | inserted _ _ _ => exact pairwise_singleton _ _
  | deleted hc hxmax => exact pairwise_stamp_last covered_stamp _ (hcov T r _ hc)
  | @updated txn row c a b hc hxmax hb _ =>
    have hold := hcov T r _ hc
    rw [append_cons, pairwise_append]
    refine ⟨pairwise_stamp_last covered_stamp _ hold, pairwise_singleton _ _, ?_⟩
    intro v hv b' hb' hsettled
    obtain rfl := mem_singleton.mp hb'
    rw [hb] at hsettled
    rcases mem_snoc.mp hv with hv | rfl
    · -- the writer is the snapshot's own transaction, and the version it replaces is settled
      have hown : txn = own := by
        by_contra hne
        exact notMem_settled hord₀ hended hsince (hopen txn rfl) hne hsettled
      obtain ⟨t, ht, hr⟩ := hc
      have hlatest : w.inner.latestVersion T r = .ok (some (a.xmin, a.data)) := by
        rw [Inner.latestVersion, Inner.table_eq_ok_iff.mpr ht]
        simp [bind, Except.bind, Table.latest_eq_some_iff.mpr ⟨c, hr⟩, hxmax]
      have hwriter := hcall (hown.trans (congrArg Snapshot.own hsnap)) a.xmin a.data hlatest
      have ha := creator_mem_settled hsnap hsince hreg ⟨t, ht, hr⟩ (v := a) (by simp) hwriter
      exact (pairwise_append.mp hold).2.2 v hv a (by simp) ha
    · exact ⟨txn, hsettled, rfl⟩

lemma covered_of_leads (h₀ : w₀.Reachable fun _ _ => True)
    (h : w₀.Leads (fun s c => c.SettledWrites snap s) w) :
    Since w₀ w ∧ w.site.Reachable (fun _ _ => True) ∧
      ∀ T r c, w.inner.Chain T r c → c.Pairwise (Covered (w₀.settled own)) := by
  have hall : w.Ordered ∧ Since w₀ w ∧ w.site.Reachable (fun _ _ => True) ∧
      ∀ T r c, w.inner.Chain T r c → c.Pairwise (Covered (w₀.settled own)) := by
    refine h.induction (P := fun w => w.Ordered ∧ Since w₀ w ∧ w.site.Reachable (fun _ _ => True) ∧
      ∀ T r c, w.inner.Chain T r c → c.Pairwise (Covered (w₀.settled own)))
      ⟨h₀.ordered, .refl w₀, h₀.site, fun T r c hc =>
        (h₀.site.registry.chained.superseded T r c hc).imp covered_of_superseded⟩ ?_
    rintro w e ⟨hord, hsince, hreach, hcov⟩ he
    refine ⟨hord.after e he, hsince.after e he, ?_⟩
    cases e with
    | begin => exact ⟨hreach, hcov⟩
    | call c =>
      obtain ⟨hopen, hsettled⟩ := he
      refine ⟨hreach.tail (.call c (fun t ht => hord.opened_live t (hopen t ht)) trivial), ?_⟩
      exact fun T r c' hc' => covered_after hsnap h₀.ordered h₀.ended hsince hreach.sound
        hreach.registry hcov c hopen hsettled hc'
  exact hall.2

end World

/-! ### One version, one answer -/

/-- The snapshot sees at most one version of each row. -/
def Inner.OneVisible (s : Inner) (snap : Snapshot) : Prop :=
  ∀ T r, ((s.chainOf T r).filter fun v => snap.isVisible s.status v.xmin v.xmax).length ≤ 1

variable {snap : Snapshot}

lemma oneVisible_of_covered {s : Inner}
    (hcov : ∀ T r c, s.Chain T r c → c.Pairwise (Covered settled))
    (hcreator : ∀ T r c, s.Chain T r c → ∀ v ∈ c, snap.isSettled s.status v.xmin = true →
      v.xmin ∈ settled)
    (hdone : ∀ x ∈ settled, snap.isSettled s.status x = true) : s.OneVisible snap := by
  intro T r
  rcases ht : s.tables.get? T with _ | t
  · simp [Inner.chainOf, ht]
  rw [Inner.chainOf_eq ht, Table.chainOf]
  rcases hc : t.rows.get? r with _ | c
  · simp
  rw [Option.getD_some]
  have hpair := (hcov T r c ⟨t, ht, hc⟩).filter fun v => snap.isVisible s.status v.xmin v.xmax
  rcases hl : c.filter fun v => snap.isVisible s.status v.xmin v.xmax with _ | ⟨a, _ | ⟨b, l⟩⟩
  · simp [hl]
  · simp [hl]
  · exfalso
    rw [hl] at hpair
    have hmem : ∀ v ∈ a :: b :: l, v ∈ c ∧ snap.isVisible s.status v.xmin v.xmax = true := by
      intro v hv
      rw [← hl] at hv
      exact mem_filter.mp hv
    obtain ⟨_, ha⟩ := hmem a (by simp)
    obtain ⟨hbc, hb⟩ := hmem b (by simp)
    have hxmin := hcreator T r c ⟨t, ht, hc⟩ b hbc (Snapshot.isVisible_iff.mp hb).1
    obtain ⟨x, hx, hxmax⟩ := (pairwise_cons.mp hpair).1 b (by simp) hxmin
    have := (Snapshot.isVisible_iff.mp ha).2 x hxmax
    rw [hdone x hx] at this
    cases this

namespace Inner.OneVisible

variable {s : Inner} {snap : Snapshot} {T : TableId} {t : Table}

lemma filter_eq (h : s.OneVisible snap) (ht : s.tables.get? T = some t) {v : Version}
    (hv : Stored t.rows r v) (hvis : snap.isVisible s.status v.xmin v.xmax = true) :
    (t.chainOf r).filter (fun v => snap.isVisible s.status v.xmin v.xmax) = [v] := by
  have hone := h T r
  rw [chainOf_eq ht] at hone
  have hmem : v ∈ (t.chainOf r).filter fun v => snap.isVisible s.status v.xmin v.xmax :=
    mem_filter.mpr ⟨mem_chainOf_iff.mpr hv, hvis⟩
  obtain ⟨a, ha⟩ := length_eq_one_iff.mp (le_antisymm hone (length_pos_of_mem hmem))
  rw [ha] at hmem ⊢
  rw [mem_singleton.mp hmem]

lemma get (h : s.OneVisible snap) (ht : s.tables.get? T = some t) {d : Row} :
    s.get snap T r = .ok (some d) ↔
      ∃ v, Stored t.rows r v ∧ snap.isVisible s.status v.xmin v.xmax = true ∧ v.data = d := by
  refine ⟨exists_visible_of_get ht, ?_⟩
  rintro ⟨v, ⟨c, hc, hv⟩, hvis, rfl⟩
  have hfilter := h.filter_eq ht ⟨c, hc, hv⟩ hvis
  rw [Table.chainOf, hc, Option.getD_some] at hfilter
  have hvisible : s.visible snap c = some v := by
    rw [visible, ← head?_filter, hfilter]
    rfl
  rw [Inner.get, Inner.table_eq_ok_iff.mpr ht]
  simp [bind, Except.bind, hc, hvisible]

variable {rows : List (RowId × Row)}

lemma scan (hscan : s.scan snap T = .ok rows) :
    (rows.map Prod.fst).Nodup ∧ ∀ r d, (r, d) ∈ rows ↔ s.get snap T r = .ok (some d) := by
  obtain ⟨t, ht, hrows⟩ := Except.bind_eq_ok_iff.mp hscan
  have hperm : rows.Perm (s.visibleRows snap t) := by
    cases hclustered : t.clustered with
    | none =>
      simp only [hclustered, Except.ok.injEq] at hrows
      rw [hrows]
    | some order =>
      simp only [hclustered] at hrows
      exact KeyOrder.sortRows_perm hrows
  constructor
  · rw [(hperm.map Prod.fst).nodup_iff, nodup_iff_pairwise_ne, pairwise_map]
    exact (visibleRows_sorted s snap t).imp ne_of_lt
  · intro r d
    rw [hperm.mem_iff, mem_visibleRows_iff, Inner.get, ht]
    exact ⟨fun h => congrArg Except.ok h, fun h => Except.ok.inj h⟩

variable {range : KeyRange} {dir : Direction}

lemma seek_eq_ok (hsorted : ∀ T t i ix, s.tables.get? T = some t → i ∈ t.indexes.keys →
      s.indexes.get? i = some ix → ix.Sorted) (hcat : Catalog s) {i : IndexId} {ix : Index}
    (hix : s.indexes.get? i = some ix) (hseek : s.seek snap i range dir = .ok rows) :
    ∃ (t : Table) (es : List IndexEntry), s.tables.get? ix.table = some t ∧
      i ∈ t.indexes.keys ∧ es.Sublist ix.entries ∧
      (∀ e, e ∈ es ↔ e ∈ ix.entries ∧ Index.InRange ix.order e.key range) ∧
      rows.Perm (es.filterMap (s.rowOf snap t.rows)) := by
  obtain ⟨t, ht, hi⟩ := hcat.owned i ix hix
  rw [seek, index_eq_ok_iff.mpr hix] at hseek
  simp only [bind, Except.bind, ht] at hseek
  rcases hpos : ix.positions range with e | p
  · simp [hpos] at hseek
  obtain ⟨start, stop⟩ := p
  simp only [hpos] at hseek
  rcases hcollect : s.collect snap i t.rows (slice ix.entries start stop) with e | out
  · simp [hcollect] at hseek
  simp only [hcollect, Except.ok.injEq] at hseek
  refine ⟨t, _, ht, hi, slice_sublist _ start stop, fun e =>
    Index.mem_positions_iff (hsorted _ t i ix ht hi hix) hpos, ?_⟩
  rw [← (collect_eq_ok_iff.mp hcollect).2, ← hseek]
  split_ifs
  · exact reverse_perm out
  · exact .refl out

lemma rowOf_eq_some_iff {rows : OrderedMap RowId (List Version)} {e : IndexEntry}
    {d : Row} : s.rowOf snap rows e = some (r, d) ↔ ∃ v, findVersion rows e.row e.version = some v ∧
      snap.isVisible s.status v.xmin v.xmax = true ∧ e.row = r ∧ v.data = d := by
  rw [rowOf, Option.bind_eq_some_iff]
  simp

/-- A seek lists rows that `get` answers, each once, and all those of its range. -/
lemma seek (h : s.OneVisible snap) (hcat : Catalog s) (hrows : Rows s) {i : IndexId} {ix : Index}
    (hix : s.indexes.get? i = some ix) (hseek : s.seek snap i range dir = .ok rows) :
    (rows.map Prod.fst).Nodup ∧ (∀ r d, (r, d) ∈ rows → s.get snap ix.table r = .ok (some d) ∧
      ∃ k, ix.order.extract d = .ok k ∧ Index.InRange ix.order k range) ∧
    ((∀ t r v, s.tables.get? ix.table = some t → Stored t.rows r v → v.xmin = snap.own →
        s.status v.xmin ≠ .aborted) → ∀ r d k, s.get snap ix.table r = .ok (some d) →
      ix.order.extract d = .ok k → Index.InRange ix.order k range → (r, d) ∈ rows) := by
  obtain ⟨t, es, ht, hi, hsub, hmem, hperm⟩ := seek_eq_ok
    (fun T t i ix ht hi hix => (hrows.linked T t i ix ht hi hix).sorted) hcat hix hseek
  have hlinked := hrows.linked _ t i ix ht hi hix
  have hwf := hrows.wellFormed _ t ht
  refine ⟨?_, ?_, ?_⟩
  · rw [(hperm.map Prod.fst).nodup_iff, nodup_iff_pairwise_ne, pairwise_map, pairwise_filterMap]
    refine (hlinked.sorted.pairwise.sublist hsub).imp_of_mem ?_
    rintro e f he hf hlt ⟨r, d⟩ hrd ⟨r', d'⟩ hrd' (rfl : r = r')
    obtain ⟨v, hv, hvis, rfl, _⟩ := rowOf_eq_some_iff.mp hrd
    obtain ⟨v', hv', hvis', hrow, _⟩ := rowOf_eq_some_iff.mp hrd'
    -- two versions of the row are seen, so they are one, and the entries are the same
    obtain ⟨hstored, hseq⟩ := findVersion_eq_some hv
    obtain ⟨hstored', hseq'⟩ := findVersion_eq_some hv'
    rw [hrow] at hstored'
    have heq : v = v' := singleton_inj.mp
      ((h.filter_eq ht hstored hvis).symm.trans (h.filter_eq ht hstored' hvis'))
    have hef := hlinked.entry_eq (hsub.subset he) (hsub.subset hf) hrow.symm
      (hseq.symm.trans ((congrArg Version.seq heq).trans hseq')) hstored hseq
    exact EntryLt.irrefl (hef ▸ hlt)
  · intro r d hrd
    obtain ⟨e, he, hrow⟩ := mem_filterMap.mp (hperm.mem_iff.mp hrd)
    obtain ⟨v, hv, hvis, rfl, rfl⟩ := rowOf_eq_some_iff.mp hrow
    obtain ⟨hstored, hseq⟩ := findVersion_eq_some hv
    obtain ⟨hentry, hrange⟩ := (hmem e).mp he
    exact ⟨(h.get ht).mpr ⟨v, hstored, hvis, rfl⟩, e.key,
      hlinked.key_eq e hentry v hstored hseq, hrange⟩
  · intro hown r d k hget hkey hrange
    obtain ⟨v, hstored, hvis, rfl⟩ := (h.get ht).mp hget
    have hcreator : s.status v.xmin ≠ .aborted := by
      rcases Snapshot.isSettled_iff.mp (Snapshot.isVisible_iff.mp hvis).1 with hx | ⟨_, _, hx⟩
      · exact hown t r v ht hstored hx
      · rw [hx]
        nofun
    obtain ⟨e, he, rfl, hversion⟩ := hlinked.covers r v hstored hcreator
    have hk : k = e.key :=
      Except.ok.inj (hkey.symm.trans (hlinked.key_eq e he v hstored hversion.symm))
    refine hperm.mem_iff.mpr (mem_filterMap.mpr ⟨e, (hmem e).mpr ⟨he, hk ▸ hrange⟩, ?_⟩)
    exact rowOf_eq_some_iff.mpr ⟨v, hversion ▸ hwf.findVersion_eq hstored, hvis, rfl, rfl⟩

end Inner.OneVisible

lemma World.oneVisible_of_leads {w₀ w : World} {own : TxnId}
    (hsnap : w₀.manager.snapshotFor own = snap) (h₀ : w₀.Reachable fun _ _ => True)
    (h : w₀.Leads (fun s c => c.SettledWrites snap s) w) : w.inner.OneVisible snap := by
  obtain ⟨hsince, hreach, hcov⟩ := covered_of_leads hsnap h₀ h
  have hreg := hreach.registry
  refine oneVisible_of_covered hcov
    (fun T r c hc v hv => creator_mem_settled hsnap hsince hreg hc hv) ?_
  exact fun x hx => hsnap ▸ isSettled_of_mem h₀.ordered hsince hreg.ledger h₀.ended hx

/-- As long as its own transaction writes rows whose last writer counts as done, a snapshot sees
at most one version of each row; `get`, `scan` and `seek` answer that version, and neither a scan
nor a seek lists a row twice. -/
theorem snapshot_sees_one_version {w₀ w : World} {own : TxnId} {snap : Snapshot}
    (hsnap : w₀.manager.snapshotFor own = snap) (h₀ : w₀.Reachable fun _ _ => True)
    (h : w₀.Leads (fun s c => c.SettledWrites snap s) w) :
    (∀ T r, ((w.inner.chainOf T r).filter fun v =>
      snap.isVisible w.inner.status v.xmin v.xmax).length ≤ 1) ∧
    (∀ T rows, w.inner.scan snap T = .ok rows → (rows.map Prod.fst).Nodup ∧
      ∀ r d, (r, d) ∈ rows ↔ w.inner.get snap T r = .ok (some d)) ∧
    (∀ i ix range dir rows, w.inner.indexes.get? i = some ix →
      w.inner.seek snap i range dir = .ok rows → (rows.map Prod.fst).Nodup ∧
      (∀ r d, (r, d) ∈ rows → w.inner.get snap ix.table r = .ok (some d) ∧
        ∃ k, ix.order.extract d = .ok k ∧ Index.InRange ix.order k range) ∧
      (w.inner.status own ≠ .aborted → ∀ r d k, w.inner.get snap ix.table r = .ok (some d) →
        ix.order.extract d = .ok k → Index.InRange ix.order k range → (r, d) ∈ rows)) := by
  obtain ⟨hcat, hrows⟩ := (World.covered_of_leads hsnap h₀ h).2.1.sound
  have hone := World.oneVisible_of_leads hsnap h₀ h
  have hown : own = snap.own := congrArg Snapshot.own hsnap
  refine ⟨hone, fun T rows => Inner.OneVisible.scan, fun i ix range dir rows hix hseek => ?_⟩
  rw [hown]
  obtain ⟨hnodup, hsound, hall⟩ := hone.seek hcat hrows hix hseek
  exact ⟨hnodup, hsound, fun hlive => hall fun _ _ _ _ _ hv => hv ▸ hlive⟩

/-- One committed row, and a transaction that has begun after it. -/
def committedRow : World := World.initial.run
  [.call (.createDatabase "d"), .call (.createTable 1 ⟨[⟨.int, true, none⟩], none⟩), .begin,
    .call (.insert 1 1 [.i32 1]), .call (.commit 1), .begin]

lemma committedRow_reachable : committedRow.Reachable fun _ _ => True := by
  refine World.Leads.run ⟨⟨nofun, trivial⟩, ⟨nofun, trivial⟩, trivial, ⟨?_, trivial⟩,
    ⟨?_, trivial⟩, trivial, trivial⟩ <;>
  · rintro t ⟨⟩
    decide

/-- The transaction updates the row: two versions are stored, one is seen. -/
theorem updated_row_shows_one_version :
    ((committedRow.run [.call (.update 2 1 1 [.i32 2])]).inner.chainOf 1 1).length = 2 ∧
    (((committedRow.run [.call (.update 2 1 1 [.i32 2])]).inner.chainOf 1 1).filter fun v =>
      (committedRow.manager.snapshotFor 2).isVisible
        (committedRow.run [.call (.update 2 1 1 [.i32 2])]).inner.status v.xmin v.xmax).length
      ≤ 1 := by
  have hleads : committedRow.Leads
      (fun s c => c.SettledWrites (committedRow.manager.snapshotFor 2) s)
      (committedRow.run [.call (.update 2 1 1 [.i32 2])]) := by
    refine World.Leads.run ⟨⟨?_, ?_⟩, trivial⟩
    · rintro t ⟨⟩
      decide
    · rintro _ writer d h
      cases h
      decide
  exact ⟨rfl, (snapshot_sees_one_version rfl committedRow_reachable hleads).1 1 1⟩

end VaubanDB
