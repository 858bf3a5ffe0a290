import VaubanDB.Memory.Exact

/-!
The logs, the chains and the indexes agree.

`Precise` says that every index is exact, that the log of every transaction not committed is made of
the tails of the chains it touched, and that two versions with equal keys in a unique index are kept
apart by the transaction that deleted one of them.  It speaks of the logs `logs x`, so that it can
follow an undo (`Precise.undo`).
-/

namespace VaubanDB

open MemoryStorage Function

/-- When the versions were created and deleted: positions in the logs, by table, row and serial
number. -/
structure Moments where
  birth : TableId → RowId → ℕ → ℕ
  death : TableId → RowId → ℕ → ℕ

/-- `a` was deleted by a committed transaction, or by the creator of `b` before it created
`b`. -/
def Before (committed : Set TxnId) (m : Moments) (T : TableId) (r : RowId) (a : Version)
    (r' : RowId) (b : Version) : Prop :=
  (∃ w ∈ committed, a.xmax = some w) ∨
    (a.xmax = some b.xmin ∧ m.death T r a.seq < m.birth T r' b.seq)

/-- The logs, the chains and the indexes agree. -/
structure Precise (ok : Column → Value → Bool) (s : Inner) (committed : Set TxnId)
    (logs : TxnId → List UndoEntry) (m : Moments) : Prop where
  exact : ∀ T t i ix, s.tables.get? T = some t → i ∈ t.indexes.keys →
    s.indexes.get? i = some ix → Exact ok t ix
  committed_nil : ∀ x ∈ committed, logs x = []
  table_lt : ∀ x, ∀ e ∈ logs x, e.table < s.nextTableId
  row_exists : ∀ x, ∀ e ∈ logs x, ∀ t, s.tables.get? e.table = some t →
    ∃ c, t.rows.get? e.row = some c
  tails : ∀ x ∉ committed, ∀ T t r c, s.tables.get? T = some t → t.rows.get? r = some c →
    Tail x (m.birth T r) (m.death T r) (onRow T r (logs x)) c
  apart : ∀ T t i ix, s.tables.get? T = some t → i ∈ t.indexes.keys →
    s.indexes.get? i = some ix → ix.shape.unique = true → ∀ r r' a b k k', r ≠ r' →
    Stored t.rows r a → Stored t.rows r' b → ix.order.extract a.data = .ok k →
    ix.order.extract b.data = .ok k' → ix.order.comparePrefix k k' = .ok .eq →
    Before committed m T r a r' b ∨ Before committed m T r' b r a

namespace Precise

variable {ok : Column → Value → Bool} {s : Inner} {committed : Set TxnId}
  {logs : TxnId → List UndoEntry} {m : Moments} {x : TxnId} {pre : List UndoEntry}
  {entry : UndoEntry}

variable (hp : Precise ok s committed logs m)
include hp

lemma exists_chain {e : UndoEntry} (he : e ∈ logs x)
    {t : Table} (ht : s.tables.get? e.table = some t) :
    ∃ c, t.rows.get? e.row = some c ∧ Tail x (m.birth e.table e.row) (m.death e.table e.row)
      (onRow e.table e.row (logs x)) c := by
  obtain ⟨c, hc⟩ := hp.row_exists x e he t ht
  refine ⟨c, hc, hp.tails x (fun hx => ?_) _ t _ c ht hc⟩
  rw [hp.committed_nil x hx] at he
  cases he

omit hp in
lemma mem_of_mem_update (hlog : logs x = pre ++ [entry]) {y : TxnId} {e : UndoEntry}
    (he : e ∈ update logs x pre y) : e ∈ logs y := by
  by_cases hyx : y = x
  · subst hyx
    rw [update_self] at he
    simp [hlog, he]
  · rwa [update_of_ne hyx] at he

lemma committed_nil_update (hlog : logs x = pre ++ [entry]) :
    ∀ y ∈ committed, update logs x pre y = [] := by
  intro y hy
  refine List.eq_nil_iff_forall_not_mem.mpr fun e he => ?_
  have := mem_of_mem_update hlog he
  rw [hp.committed_nil y hy] at this
  cases this

variable {T : TableId}

omit hp in
lemma onRow_update (hlog : logs x = pre ++ [entry]) {r : RowId}
    (hnot : ¬ (entry.table = T ∧ entry.row = r)) (y : TxnId) :
    onRow T r (update logs x pre y) = onRow T r (logs y) := by
  by_cases hyx : y = x
  · subst hyx
    rw [update_self, hlog, onRow_append, if_neg hnot]
  · rw [update_of_ne hyx]

lemma undo_dropped (hlog : logs x = pre ++ [entry]) (ht : s.tables.get? entry.table = none) :
    Precise ok s committed (update logs x pre) m where
  exact := hp.exact
  committed_nil := hp.committed_nil_update hlog
  table_lt := fun y e he => hp.table_lt y e (mem_of_mem_update hlog he)
  row_exists := fun y e he => hp.row_exists y e (mem_of_mem_update hlog he)
  tails := by
    intro y hy T t r c ht' hc
    rw [onRow_update hlog ?_ y]
    · exact hp.tails y hy T t r c ht' hc
    · rintro ⟨rfl, _⟩
      cases ht.symm.trans ht'
  apart := hp.apart

/-- A change of one table, of the logs and of the moments: what is asked about that table. -/
lemma of_localChange (hcat : Catalog s) {s' : Inner} {t t' : Table} (hl : LocalChange s s' T t t')
    {logs' : TxnId → List UndoEntry} {m' : Moments} (hnil : ∀ x ∈ committed, logs' x = [])
    (hlogs : ∀ x, ∀ e ∈ logs' x, e.table ≠ T → e ∈ logs x)
    (honRow : ∀ x T' r, T' ≠ T → onRow T' r (logs' x) = onRow T' r (logs x))
    (hbirth : ∀ T', T' ≠ T → m'.birth T' = m.birth T')
    (hdeath : ∀ T', T' ≠ T → m'.death T' = m.death T')
    (hexact : ∀ i ∈ t.indexes.keys, ∀ ix', s'.indexes.get? i = some ix' → Exact ok t' ix')
    (hrow : ∀ x, ∀ e ∈ logs' x, e.table = T → ∃ c, t'.rows.get? e.row = some c)
    (htails : ∀ x ∉ committed, ∀ r c, t'.rows.get? r = some c →
      Tail x (m'.birth T r) (m'.death T r) (onRow T r (logs' x)) c)
    (hapart : ∀ i ∈ t.indexes.keys, ∀ ix, s.indexes.get? i = some ix → ix.shape.unique = true →
      ∀ r r' a b k k', r ≠ r' → Stored t'.rows r a → Stored t'.rows r' b →
      ix.order.extract a.data = .ok k → ix.order.extract b.data = .ok k' →
      ix.order.comparePrefix k k' = .ok .eq →
      Before committed m' T r a r' b ∨ Before committed m' T r' b r a) :
    Precise ok s' committed logs' m' where
  exact := by
    intro T' u i ix hu hi hix
    rcases hl.get?_cases hu with ⟨rfl, rfl⟩ | ⟨hT, hu⟩
    · exact hexact i (hl.indexes_eq ▸ hi) ix hix
    · rw [hl.index_other hcat hT hu hi] at hix
      exact hp.exact T' u i ix hu hi hix
  committed_nil := hnil
  table_lt := by
    intro x e he
    rw [hl.nextTableId_eq]
    by_cases hT : e.table = T
    · rw [hT]
      exact hcat.table_lt T t hl.before
    · exact hp.table_lt x e (hlogs x e he hT)
  row_exists := by
    intro x e he u hu
    rcases hl.get?_cases hu with ⟨hT, rfl⟩ | ⟨hT, hu⟩
    · exact hrow x e he hT
    · exact hp.row_exists x e (hlogs x e he hT) u hu
  tails := by
    intro x hx T' u r c hu hc
    rcases hl.get?_cases hu with ⟨rfl, rfl⟩ | ⟨hT, hu⟩
    · exact htails x hx r c hc
    · rw [honRow x T' r hT, hbirth T' hT, hdeath T' hT]
      exact hp.tails x hx T' u r c hu hc
  apart := by
    intro T' u i ix' hu hi hix' hunique r r' a b k k' hne ha hb hk hk' hkeys
    rcases hl.get?_cases hu with ⟨rfl, rfl⟩ | ⟨hT, hu⟩
    · obtain ⟨ix, entries, hix, rfl⟩ := hl.index_cases hcat hix'
      exact hapart i (hl.indexes_eq ▸ hi) ix hix hunique r r' a b k k' hne ha hb hk hk' hkeys
    · rw [hl.index_other hcat hT hu hi] at hix'
      rw [Before, Before, hbirth T' hT, hdeath T' hT]
      exact hp.apart T' u i ix' hu hi hix' hunique r r' a b k k' hne ha hb hk hk' hkeys

omit hp in
/-- Undoing the write at position `n` keeps the order of deletions and creations: what it brings
back had been deleted after everything left was created. -/
lemma before_of_undone (hx : x ∉ committed) {r r' : RowId} {n : ℕ}
    {a b a' b' : Version} (ha : a' = a ∨ (a.xmax = some x ∧ m.death T r a.seq = n))
    (hb : b'.core = b.core) (hbirth : b.xmin = x → m.birth T r' b.seq ≤ n)
    (h : Before committed m T r a r' b) : Before committed m T r a' r' b' := by
  have hxmin : b'.xmin = b.xmin := congrArg (fun p => p.2.2) hb
  have hseq : b'.seq = b.seq := congrArg Prod.fst hb
  rw [Before, hxmin, hseq]
  rcases ha with rfl | ⟨hax, hdeath⟩
  · exact h
  · exfalso
    rcases h with ⟨w, hw, hc⟩ | ⟨hdel, hlt⟩
    · cases hax.symm.trans hc
      exact hx hw
    · have := hbirth (Option.mem_unique hdel hax)
      omega

section Undo

variable (hok : ∀ c v, ok c v = true → v.selfComparable = true)
include hok

lemma undo (hcat : Catalog s) (hrows : Rows s)
    (hx : x ∉ committed) (hlog : logs x = pre ++ [entry]) :
    ∃ s', MemoryStorage.undo x entry s = .ok () s' ∧ s'.txns = s.txns ∧ Framed x s s' ∧
      Precise ok s' committed (update logs x pre) m := by
  rcases ht : s.tables.get? entry.table with _ | t
  · exact ⟨s, undo_of_dropped ht, rfl, .refl x s, hp.undo_dropped hlog ht⟩
  obtain ⟨c, hc, htail⟩ := hp.exists_chain (x := x) (by simp [hlog]) ht
  rw [hlog, onRow_append, if_pos ⟨rfl, rfl⟩] at htail
  obtain ⟨removed, t', hut, hu⟩ := htail.undo hc
  obtain ⟨s', hres, htxns, hlocal, hexact⟩ := takeAway_exact hok hcat hrows ht
    (takenAway_undoTable (hrows.wellFormed _ t ht) hut)
    fun i hi ix hix => hp.exact _ t i ix ht hi hix
  -- another transaction has no write on the row of the entry
  have hother : ∀ y ∉ committed, y ≠ x →
      onRow entry.table entry.row (logs y) = [] := fun y hy hyx =>
    htail.eq_nil_of_other hyx (hp.tails y hy _ t _ c ht hc)
  refine ⟨s', (undo_of_some ht hut).2.trans hres, htxns,
    .of_localChange hlocal hcat hu.framed, hp.of_localChange hcat hlocal
    (hp.committed_nil_update hlog) (fun y e he _ => mem_of_mem_update hlog he)
    (fun y T' r hT => onRow_update hlog (fun h => hT h.1.symm) y) (fun _ _ => rfl)
    (fun _ _ => rfl) hexact ?_ ?_ ?_⟩
  · intro y e he hT
    have he' := mem_of_mem_update hlog he
    by_cases hr : e.row = entry.row
    · rcases hu.mine with ⟨_, hnil⟩ | ⟨c', hc', _⟩
      · exfalso
        by_cases hyx : y = x
        · subst hyx
          rw [update_self] at he
          exact onRow_ne_nil he hT hr hnil
        · refine onRow_ne_nil he' hT hr (hother y (fun hy => ?_) hyx)
          rw [hp.committed_nil y hy] at he'
          cases he'
      · exact ⟨c', hr ▸ hc'⟩
    · rw [hu.others e.row hr]
      exact hp.row_exists y e he' t (hT ▸ ht)
  · intro y hy r c' hc'
    by_cases hr : r = entry.row
    · subst hr
      by_cases hyx : y = x
      · subst hyx
        rw [update_self]
        rcases hu.mine with ⟨hnone, _⟩ | ⟨c'', hc'', htail'⟩
        · cases hnone.symm.trans hc'
        · obtain rfl := Option.mem_unique hc' hc''
          exact htail'
      · have htail' := hp.tails y hy _ t _ c ht hc
        rw [hother y hy hyx] at htail'
        rw [update_of_ne hyx, hother y hy hyx]
        obtain ⟨d, hd, htrim⟩ := undoTable_trimmed hut hc'
        obtain rfl := Option.mem_unique hc hd
        exact .none (htrim.not_mentioned htail'.not_mentioned)
    · rw [onRow_update hlog (fun h => hr h.2.symm)]
      rw [hu.others r hr] at hc'
      exact hp.tails y hy _ t r c' ht hc'
  · intro i hi ix hix hunique r r' a' b' k k' hne ha' hb' hk hk' hkeys
    have hbirth : ∀ r v, Stored t.rows r v → v.xmin = x →
        m.birth entry.table r v.seq ≤ pre.length := by
      rintro r v ⟨d, hd, hv⟩ hvx
      obtain ⟨p, hmem, heq⟩ := ((hp.tails x hx _ t r d ht hd).exists_write hv).1 hvx
      have := position_lt_of_mem_onRow hmem
      rw [hlog, List.length_append, List.length_singleton] at this
      omega
    have hversion : ∀ r v', Stored t'.rows r v' → ∃ v, Stored t.rows r v ∧ v'.core = v.core ∧
        (v' = v ∨ (v.xmax = some x ∧ m.death entry.table r v.seq = pre.length)) := by
      intro r v' hv'
      obtain ⟨v, hv, rfl | ⟨rfl, rfl, hx', hd⟩⟩ := hu.versions r v' hv'
      · exact ⟨v', hv, rfl, .inl rfl⟩
      · exact ⟨v, hv, rfl, .inr ⟨hx', hd⟩⟩
    obtain ⟨a, ha, hcore, hcase⟩ := hversion r a' ha'
    obtain ⟨b, hb, hcore', hcase'⟩ := hversion r' b' hb'
    rw [show a'.data = a.data from congrArg (fun p => p.2.1) hcore] at hk
    rw [show b'.data = b.data from congrArg (fun p => p.2.1) hcore'] at hk'
    exact (hp.apart _ t i ix ht hi hix hunique r r' a b k k' hne ha hb hk hk' hkeys).imp
      (before_of_undone hx hcase hcore' (hbirth r' b hb))
      (before_of_undone hx hcase' hcore (hbirth r a ha))

lemma undoAll (hcat : Catalog s) (hrows : Rows s)
    (hx : x ∉ committed) {kept undone : List UndoEntry} (hlog : logs x = kept ++ undone) :
    ∃ s', MemoryStorage.undoAll x undone s = .ok () s' ∧ s'.txns = s.txns ∧ Framed x s s' ∧
      Precise ok s' committed (update logs x kept) m := by
  induction undone using List.reverseRecOn generalizing s logs with
  | nil =>
    refine ⟨s, rfl, rfl, .refl x s, ?_⟩
    rw [List.append_nil] at hlog
    rwa [← hlog, update_eq_self]
  | append_singleton undone entry ih =>
    rw [← List.append_assoc] at hlog
    obtain ⟨s₁, hone, htxns, hframed, hp₁⟩ := hp.undo hok hcat hrows hx hlog
    have hsound := undo_preserves x entry s ⟨hcat, hrows⟩
    rw [hone] at hsound
    obtain ⟨s', hall, htxns', hframed', hp'⟩ := ih hp₁ hsound.1 hsound.2 (update_self _ _ _)
    refine ⟨s', ?_, htxns'.trans htxns, hframed.trans hframed', ?_⟩
    · rw [undoAll, List.reverse_append]
      exact (EStateM.bind_of_ok hone).trans hall
    · rwa [update_idem] at hp'

end Undo

end Precise

end VaubanDB
