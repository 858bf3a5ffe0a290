import VaubanDB.Memory.Tails

/-!
Indexes that hold exactly one entry per stored version.

An index accepts a key it cannot compare with itself, and then cannot find the entry again.
`ok` stands for a condition on the values of key columns under which that does not happen; the
entries of the versions a rollback or a vacuum takes away are then all found and removed
(`removeFromIndexes_exact`).
-/

namespace VaubanDB

open MemoryStorage OrderedMap List

/-- The entries of the index are those of the versions `vs`, given by row, serial number and
content. -/
def Index.Lists (ix : Index) (vs : RowId → ℕ → Row → Prop) : Prop :=
  ∀ e, e ∈ ix.entries ↔ ∃ data, vs e.row e.version data ∧ ix.order.extract data = .ok e.key

def Table.holds (t : Table) (r : RowId) (n : ℕ) (data : Row) : Prop :=
  ∃ v, Stored t.rows r v ∧ v.seq = n ∧ v.data = data

/-- The index holds exactly one entry per version of the table, with keys that satisfy `ok`. -/
structure Exact (ok : Column → Value → Bool) (t : Table) (ix : Index) : Prop where
  lists : ix.Lists t.holds
  keys : ∀ e ∈ ix.entries, ix.order.Holds ok e.key

/-! ### Removal of entries -/

section Removal

variable {ok : Column → Value → Bool} (hok : ∀ c v, ok c v = true → v.selfComparable = true)
  {removed : List (RowId × Version)}
include hok

variable {vs : RowId → ℕ → Row → Prop}

lemma removeVersion_lists {ix : Index} (hsorted : ix.Sorted)
    (hkeys : ∀ e ∈ ix.entries, ix.order.Holds ok e.key)
    (hlists : ix.Lists vs) {r : RowId} {v : Version} (hv : vs r v.seq v.data)
    (hunique : ∀ data, vs r v.seq data → data = v.data) {key : List Value}
    (hkey : ix.order.extract v.data = .ok key) :
    ∃ entries, ix.removeVersion r v = .ok { ix with entries } ∧ entries.Sublist ix.entries ∧
      { ix with entries }.Lists fun r' n data => vs r' n data ∧ ¬ (r' = r ∧ n = v.seq) := by
  have hmem : (⟨key, r, v.seq⟩ : IndexEntry) ∈ ix.entries := (hlists _).mpr ⟨v.data, hv, hkey⟩
  obtain ⟨l₁, l₂, hentries⟩ := append_of_mem hmem
  have hself : ix.order.comparePrefix key key = .ok .eq := by
    refine KeyOrder.comparePrefix_self fun v hv => ?_
    obtain ⟨i, hi, rfl⟩ := mem_iff_getElem.mp hv
    have hi' : i < ix.order.columns.length := hsorted.width _ hmem ▸ hi
    exact hok _ _ (hkeys _ hmem i _ _ (getElem?_eq_getElem hi') (getElem?_eq_getElem hi))
  refine ⟨l₁ ++ l₂, Index.removeVersion_eq hsorted hentries hkey hself, ?_, ?_⟩
  · rw [hentries]
    exact Sublist.append (.refl _) (sublist_cons_self _ _)
  · have hnodup := hsorted.nodup
    rw [hentries, nodup_middle, nodup_cons] at hnodup
    intro e
    constructor
    · intro he
      have he' : e ∈ ix.entries := by
        rw [hentries]
        rcases mem_append.mp he with he | he <;> simp [he]
      obtain ⟨data, hd, hk⟩ := (hlists e).mp he'
      refine ⟨data, ⟨hd, ?_⟩, hk⟩
      rintro ⟨hr, hn⟩
      rw [hr, hn] at hd
      rw [hunique data hd, hkey] at hk
      have heq : e = ⟨key, r, v.seq⟩ := by
        cases e
        simp_all
      exact hnodup.1 (heq ▸ he)
    · rintro ⟨data, ⟨hd, hne⟩, hk⟩
      have he' : e ∈ ix.entries := (hlists e).mpr ⟨data, hd, hk⟩
      rw [hentries, mem_append, mem_cons] at he'
      rcases he' with he | rfl | he
      · exact mem_append_left _ he
      · exact absurd ⟨rfl, rfl⟩ hne
      · exact mem_append_right _ he

variable {s : Inner}

lemma removeEntries_lists {i : IndexId} {ix : Index} (hix : s.indexes.get? i = some ix)
    (hsorted : ix.Sorted) (hkeys : ∀ e ∈ ix.entries, ix.order.Holds ok e.key) (hlists : ix.Lists vs)
    (hvs : ∀ item ∈ removed, vs item.1 item.2.seq item.2.data)
    (hunique : ∀ item ∈ removed, ∀ data, vs item.1 item.2.seq data → data = item.2.data)
    (hextract : ∀ item ∈ removed, ∃ key, ix.order.extract item.2.data = .ok key)
    (hdistinct : removed.Pairwise fun x y => ¬ (x.1 = y.1 ∧ x.2.seq = y.2.seq)) :
    ∃ entries, removed.forM (removeEntry i) s
        = .ok () { s with indexes := s.indexes.insert i { ix with entries } } ∧
      entries.Sublist ix.entries ∧ { ix with entries }.Lists fun r n data => vs r n data ∧
        ∀ item ∈ removed, ¬ (r = item.1 ∧ n = item.2.seq) := by
  induction removed generalizing s ix vs with
  | nil =>
    refine ⟨ix.entries, ?_, .refl _, fun e => by simp [hlists e]⟩
    rw [insert_eq_self hix]
    rfl
  | cons item removed ih =>
    rw [pairwise_cons] at hdistinct
    obtain ⟨key, hkey⟩ := hextract item (by simp)
    obtain ⟨entries, hrem, hsub, hlists'⟩ := removeVersion_lists hok hsorted hkeys hlists
      (hvs item (by simp)) (hunique item (by simp)) hkey
    have hone : removeEntry i item s
        = .ok () { s with indexes := s.indexes.insert i { ix with entries } } := by
      rw [removeEntry, EStateM.get_bind_apply]
      simp only [hix, hrem, EStateM.liftExcept_ok_bind_apply, EStateM.set_apply]
    obtain ⟨entries', hres, hsub', hlists''⟩ := ih
      (s := { s with indexes := s.indexes.insert i { ix with entries } })
      (get?_insert_self _ _ _) (hsorted.sublist hsub)
      (fun e he => hkeys e (hsub.subset he)) hlists'
      (fun y hy => ⟨hvs y (by simp [hy]), fun h => hdistinct.1 y hy ⟨h.1.symm, h.2.symm⟩⟩)
      (fun y hy data hd => hunique y (by simp [hy]) data hd.1)
      (fun y hy => hextract y (by simp [hy])) hdistinct.2
    refine ⟨entries', ?_, hsub'.trans hsub, fun e => ?_⟩
    · refine (EStateM.bind_of_ok hone).trans ?_
      rw [hres]
      simp only [insert_insert]
    · rw [hlists'' e]
      simp only [forall_mem_cons, and_assoc]

lemma removeFromIndexes_lists {ids : List IndexId} (hnodup : ids.Nodup)
    (vs : RowId → ℕ → Row → Prop) (hvs : ∀ item ∈ removed, vs item.1 item.2.seq item.2.data)
    (hunique : ∀ item ∈ removed, ∀ data, vs item.1 item.2.seq data → data = item.2.data)
    (hdistinct : removed.Pairwise fun x y => ¬ (x.1 = y.1 ∧ x.2.seq = y.2.seq))
    (hids : ∀ i ∈ ids, ∃ ix, s.indexes.get? i = some ix ∧ ix.Sorted ∧
      (∀ e ∈ ix.entries, ix.order.Holds ok e.key) ∧ ix.Lists vs ∧
      ∀ item ∈ removed, ∃ key, ix.order.extract item.2.data = .ok key) :
    ∃ s', removeFromIndexes ids removed s = .ok () s' ∧ s' = { s with indexes := s'.indexes } ∧
      (∀ i, i ∉ ids → s'.indexes.get? i = s.indexes.get? i) ∧
      ∀ i ∈ ids, ∀ ix, s.indexes.get? i = some ix → ∃ entries,
        s'.indexes.get? i = some { ix with entries } ∧ entries.Sublist ix.entries ∧
        { ix with entries }.Lists fun r n data => vs r n data ∧
          ∀ item ∈ removed, ¬ (r = item.1 ∧ n = item.2.seq) := by
  induction ids generalizing s with
  | nil => exact ⟨s, rfl, rfl, fun _ _ => rfl, nofun⟩
  | cons i ids ih =>
    rw [nodup_cons] at hnodup
    obtain ⟨ix, hix, hsorted, hkeys, hlists, hextract⟩ := hids i (by simp)
    obtain ⟨entries, hres, hsub, hlists'⟩ := removeEntries_lists hok hix hsorted hkeys hlists hvs
      hunique hextract hdistinct
    have hother : ∀ j ∈ ids, (s.indexes.insert i { ix with entries }).get? j
        = s.indexes.get? j := fun j hj =>
      get?_insert_ne _ _ (by rintro rfl; exact hnodup.1 hj)
    obtain ⟨s', hres', hframe, hothers, hmine⟩ := ih hnodup.2
      (s := { s with indexes := s.indexes.insert i { ix with entries } }) (by
        intro j hj
        obtain ⟨jx, hjx, hrest⟩ := hids j (by simp [hj])
        exact ⟨jx, (hother j hj).trans hjx, hrest⟩)
    refine ⟨s', (EStateM.bind_of_ok hres).trans hres', hframe, ?_, ?_⟩
    · intro j hj
      rw [mem_cons, not_or] at hj
      rw [hothers j hj.2, get?_insert_ne _ _ hj.1]
    · intro j hj jx hjx
      rcases mem_cons.mp hj with rfl | hj
      · obtain rfl := Option.mem_unique hix hjx
        refine ⟨entries, ?_, hsub, hlists'⟩
        rw [hothers j hnodup.1, get?_insert_self]
      · exact hmine j hj jx ((hother j hj).trans hjx)

lemma takeAway_exact (hcat : Catalog s) (hrows : Rows s) {T : TableId} {t t' : Table}
    (ht : s.tables.get? T = some t) (h : TakenAway t t' removed)
    (hexact : ∀ i ∈ t.indexes.keys, ∀ ix, s.indexes.get? i = some ix → Exact ok t ix) :
    ∃ s', removeFromIndexes t.indexes.keys removed (s.withTable T t') = .ok () s' ∧
      s'.txns = s.txns ∧ LocalChange s s' T t t' ∧
      ∀ i ∈ t.indexes.keys, ∀ ix', s'.indexes.get? i = some ix' → Exact ok t' ix' := by
  have hwf := hrows.wellFormed T t ht
  have hvs : ∀ r n data, t'.holds r n data ↔
      t.holds r n data ∧ ∀ item ∈ removed, ¬ (r = item.1 ∧ n = item.2.seq) := by
    intro r n data
    constructor
    · rintro ⟨v', hv', rfl, rfl⟩
      obtain ⟨v, hv, hcore⟩ := h.shrinks r v' hv'
      refine ⟨⟨v, hv, congrArg Prod.fst hcore, congrArg (fun p => p.2.1) hcore⟩, ?_⟩
      rintro item hitem ⟨rfl, hn⟩
      exact h.gone item hitem v' hv' hn
    · rintro ⟨⟨v, hv, rfl, rfl⟩, hnot⟩
      rcases h.complete r v hv with ⟨v', hv', hcore⟩ | hmem
      · exact ⟨v', hv', congrArg Prod.fst hcore, congrArg (fun p => p.2.1) hcore⟩
      · exact absurd ⟨rfl, rfl⟩ (hnot _ hmem)
  obtain ⟨s', hres, hframe, hothers, hmine⟩ := removeFromIndexes_lists hok
    (keys_nodup t.indexes) t.holds (s := s.withTable T t')
    (fun item hitem => ⟨item.2, h.stored item hitem, rfl, rfl⟩)
    (by
      rintro item hitem data ⟨v, hv, hn, rfl⟩
      rw [hwf.eq_of_seq hv (h.stored item hitem) hn])
    h.distinct
    (by
      intro i hi
      obtain ⟨ix, hix, _⟩ := hcat.listed T t i ht hi
      have hlink := hrows.linked T t i ix ht hi hix
      have hex := hexact i hi ix hix
      exact ⟨ix, hix, hlink.sorted, hex.keys, hex.lists, fun item hitem =>
        hlink.extract_isOk (hwf.arity_eq item.1 item.2 (h.stored item hitem))⟩)
  refine ⟨s', hres, by rw [hframe]; rfl, ?_, fun i hi ix' hix' => ?_⟩
  · refine ⟨ht, by rw [hframe]; rfl, h.db_eq, h.shape_eq, h.clustered_eq, h.indexes_eq,
      by rw [hframe]; rfl, by rw [hframe]; rfl, by rw [hframe]; rfl, by rw [hframe]; rfl,
      hothers, fun i hi ix hix => ?_⟩
    obtain ⟨entries, hget, _⟩ := hmine i hi ix hix
    exact ⟨entries, hget⟩
  · obtain ⟨ix, hix, _⟩ := hcat.listed T t i ht hi
    obtain ⟨entries, hget, hsub, hlists⟩ := hmine i hi ix hix
    obtain rfl := Option.mem_unique hix' hget
    refine ⟨fun e => ?_, fun e he => (hexact i hi ix hix).keys e (hsub.subset he)⟩
    rw [hlists e]
    simp only [hvs]

end Removal

end VaubanDB
