import VaubanDB.Memory.Frames

/-!
The writes of a transaction are the tails of the chains it touched.

`onRow T r log` lists the writes of a log on one row, the most recent first, with their positions.
`Tail x birth death writes c` says that the chain `c` ends with these writes of `x`: peeling them
off one by one, as an undo does, leaves a chain that does not mention `x`.  `birth` and `death`
record the positions of the writes that created and deleted the versions.
-/

namespace VaubanDB

open List

/-- The writes of a log on one row, the most recent first, with their positions. -/
def onRow (T : TableId) (r : RowId) (log : List UndoEntry) : List (UndoEntry × ℕ) :=
  (log.zipIdx.filter fun p => decide (p.1.table = T ∧ p.1.row = r)).reverse

variable {p : UndoEntry × ℕ}

section OnRow

variable {T : TableId} {r : RowId} {log : List UndoEntry} {entry : UndoEntry}

@[simp] lemma onRow_nil : onRow T r [] = [] := rfl

lemma onRow_append (T : TableId) (r : RowId) (log : List UndoEntry) (entry : UndoEntry) :
    onRow T r (log ++ [entry]) =
      if entry.table = T ∧ entry.row = r then (entry, log.length) :: onRow T r log
      else onRow T r log := by
  split_ifs with h <;> simp [onRow, zipIdx_append, filter_append, h]

lemma position_lt_of_mem_onRow (h : p ∈ onRow T r log) : p.2 < log.length := by
  rw [onRow, mem_reverse, mem_filter] at h
  have := mem_zipIdx h.1
  omega

lemma onRow_ne_nil (h : entry ∈ log) (ht : entry.table = T) (hr : entry.row = r) :
    onRow T r log ≠ [] := by
  obtain ⟨i, hi⟩ := mem_iff_getElem?.mp h
  have hmem : (entry, i) ∈ onRow T r log := by
    rw [onRow, mem_reverse, mem_filter]
    exact ⟨mk_mem_zipIdx_iff_getElem?.mpr hi, by simp [ht, hr]⟩
  exact ne_nil_of_mem hmem

lemma onRow_eq_nil (h : ∀ e ∈ log, ¬ (e.table = T ∧ e.row = r)) : onRow T r log = [] := by
  rw [onRow, reverse_eq_nil_iff, filter_eq_nil_iff]
  intro p hp
  have hmem : p.1 ∈ log := fst_mem_of_mem_zipIdx hp
  simpa using h p.1 hmem

end OnRow

/-- The chain ends with the writes of `x`, the most recent first. -/
inductive Tail (x : TxnId) (birth death : ℕ → ℕ) : List (UndoEntry × ℕ) → List Version → Prop
  | none {c : List Version} (h : ∀ v ∈ c, v.xmin ≠ x ∧ v.xmax ≠ some x) : Tail x birth death [] c
  | insert {v : Version} {T : TableId} {r : RowId} {n : ℕ} (hxmin : v.xmin = x)
      (hxmax : v.xmax = .none) (hbirth : birth v.seq = n) :
      Tail x birth death [(.insert T r, n)] [v]
  | update {c : List Version} {a b : Version} {T : TableId} {r : RowId} {n : ℕ}
      {writes : List (UndoEntry × ℕ)} (ha : a.xmax = some x) (hxmin : b.xmin = x)
      (hxmax : b.xmax = .none) (hdeath : death a.seq = n) (hbirth : birth b.seq = n)
      (h : Tail x birth death writes (c ++ [{ a with xmax := .none }])) :
      Tail x birth death ((.update T r, n) :: writes) (c ++ [a, b])
  | delete {c : List Version} {a : Version} {T : TableId} {r : RowId} {n : ℕ}
      {writes : List (UndoEntry × ℕ)} (ha : a.xmax = some x) (hdeath : death a.seq = n)
      (h : Tail x birth death writes (c ++ [{ a with xmax := .none }])) :
      Tail x birth death ((.delete T r, n) :: writes) (c ++ [a])

namespace Tail

variable {x : TxnId} {birth death birth' death' : ℕ → ℕ} {writes : List (UndoEntry × ℕ)}
  {c : List Version}

variable (h : Tail x birth death writes c)
include h

lemma exists_write {v : Version} (hv : v ∈ c) :
    (v.xmin = x → ∃ p ∈ writes, birth v.seq = p.2) ∧
      (v.xmax = some x → ∃ p ∈ writes, death v.seq = p.2) := by
  induction h generalizing v with
  | none h => exact ⟨fun hx => absurd hx (h v hv).1, fun hx => absurd hx (h v hv).2⟩
  | insert _ hxmax hbirth =>
    obtain rfl := mem_singleton.mp hv
    exact ⟨fun _ => ⟨_, mem_cons_self, hbirth⟩, by simp [hxmax]⟩
  | @update c a b T r n writes _ _ hxmax hdeath hbirth _ ih =>
    simp only [mem_append, mem_cons, not_mem_nil, or_false] at hv
    rcases hv with hv | rfl | rfl
    · exact (ih (v := v) (by simp [hv])).imp (exists_mem_cons_of_exists ∘ ·)
        (exists_mem_cons_of_exists ∘ ·)
    · exact ⟨exists_mem_cons_of_exists ∘ (ih (v := { v with xmax := .none }) (by simp)).1,
        fun _ => ⟨_, mem_cons_self, hdeath⟩⟩
    · exact ⟨fun _ => ⟨_, mem_cons_self, hbirth⟩, by simp [hxmax]⟩
  | @delete c a T r n writes _ hdeath _ ih =>
    rcases mem_snoc.mp hv with hv | rfl
    · exact (ih (v := v) (by simp [hv])).imp (exists_mem_cons_of_exists ∘ ·)
        (exists_mem_cons_of_exists ∘ ·)
    · exact ⟨exists_mem_cons_of_exists ∘ (ih (v := { v with xmax := .none }) (by simp)).1,
        fun _ => ⟨_, mem_cons_self, hdeath⟩⟩

omit h in
lemma not_mentioned (h : Tail x birth death [] c) : ∀ v ∈ c, v.xmin ≠ x ∧ v.xmax ≠ some x := by
  cases h with
  | none h => exact h

lemma ne_nil (hw : writes ≠ []) : c ≠ [] := by
  cases h <;> simp at hw ⊢

lemma congr (hbirth : ∀ v ∈ c, birth' v.seq = birth v.seq)
    (hdeath : ∀ v ∈ c, v.xmax = some x → death' v.seq = death v.seq) :
    Tail x birth' death' writes c := by
  induction h with
  | none h => exact .none h
  | @insert v T r n hxmin hxmax hn => exact .insert hxmin hxmax ((hbirth v (by simp)).trans hn)
  | @update c a b T r n writes ha hxmin hxmax hd hb h ih =>
    refine .update ha hxmin hxmax ((hdeath a (by simp) ha).trans hd)
      ((hbirth b (by simp)).trans hb) (ih ?_ ?_)
    · intro v hv
      rcases mem_snoc.mp hv with hv | rfl
      · exact hbirth v (by simp [hv])
      · exact hbirth a (by simp)
    · intro v hv hx
      rcases mem_snoc.mp hv with hv | rfl
      · exact hdeath v (by simp [hv]) hx
      · cases hx
  | @delete c a T r n writes ha hd h ih =>
    refine .delete ha ((hdeath a (by simp) ha).trans hd) (ih ?_ ?_)
    · intro v hv
      rcases mem_snoc.mp hv with hv | rfl
      · exact hbirth v (by simp [hv])
      · exact hbirth a (by simp)
    · intro v hv hx
      rcases mem_snoc.mp hv with hv | rfl
      · exact hdeath v (by simp [hv]) hx
      · cases hx

omit h in
lemma last_of_cons (h : Tail x birth death (p :: writes) c) :
    ∃ d a, c = d ++ [a] ∧ ((a.xmin = x ∧ a.xmax = .none) ∨ a.xmax = some x) := by
  cases h with
  | insert hxmin hxmax _ => exact ⟨[], _, rfl, .inl ⟨hxmin, hxmax⟩⟩
  | update _ hxmin hxmax _ _ _ => exact ⟨_, _, append_cons _ _ _, .inl ⟨hxmin, hxmax⟩⟩
  | delete ha _ _ => exact ⟨_, _, rfl, .inr ha⟩

omit h in
lemma eq_nil_of_current {a : Version} (h : Tail x birth death writes (c ++ [a]))
    (hxmax : a.xmax = .none) (hxmin : a.xmin ≠ x) : writes = [] := by
  cases writes with
  | nil => rfl
  | cons p writes =>
    obtain ⟨d, b, heq, hb⟩ := h.last_of_cons
    obtain ⟨_, hab⟩ := append_inj' heq rfl
    obtain rfl : a = b := by simpa using hab
    rcases hb with ⟨hx, _⟩ | hx
    · exact absurd hx hxmin
    · cases hxmax.symm.trans hx

omit h in
lemma eq_nil_of_other {y : TxnId} (hxy : y ≠ x)
    {others : List (UndoEntry × ℕ)} (h : Tail x birth death (p :: writes) c)
    (h' : Tail y birth' death' others c) : others = [] := by
  cases others with
  | nil => rfl
  | cons q others =>
    obtain ⟨d, a, rfl, ha⟩ := h.last_of_cons
    obtain ⟨e, b, heq, hb⟩ := h'.last_of_cons
    obtain ⟨_, hab⟩ := append_inj' heq rfl
    obtain rfl : a = b := by simpa using hab
    rcases ha with ⟨hx, hn⟩ | hx <;> rcases hb with ⟨hy, hn'⟩ | hy
    · exact absurd (hy.symm.trans hx) hxy
    · cases hn.symm.trans hy
    · cases hn'.symm.trans hx
    · exact absurd (Option.mem_unique hy hx) hxy

lemma filter {p : Version → Bool}
    (hp : ∀ v ∈ c, v.xmin = x ∨ v.xmax = some x → ∀ y, y = Option.none ∨ y = some x →
      p { v with xmax := y } = true) :
    Tail x birth death writes (c.filter p) := by
  -- the chain before the last write of `x` meets the condition as well
  have hback : ∀ {c : List Version} {a : Version} {e : List Version},
      (∀ v ∈ c ++ a :: e, v.xmin = x ∨ v.xmax = some x → ∀ y, y = Option.none ∨ y = some x →
        p { v with xmax := y } = true) → a.xmax = some x →
      p a = true ∧ p { a with xmax := Option.none } = true ∧
      ∀ v ∈ c ++ [{ a with xmax := Option.none }], v.xmin = x ∨ v.xmax = some x →
        ∀ y, y = Option.none ∨ y = some x → p { v with xmax := y } = true := by
    intro c a e hp ha
    have hmem : a ∈ c ++ a :: e := by simp
    refine ⟨?_, hp a hmem (.inr ha) _ (.inl rfl), fun v hv hx y hy => ?_⟩
    · have := hp a hmem (.inr ha) _ (.inr rfl)
      rwa [← ha] at this
    · rcases mem_snoc.mp hv with hv | rfl
      · exact hp v (by simp [hv]) hx y hy
      · exact hp a hmem (.inr ha) y hy
  induction h with
  | none h => exact .none fun v hv => h v (mem_of_mem_filter hv)
  | @insert v T r n hxmin hxmax hn =>
    have hv := hp v (by simp) (.inl hxmin) _ (.inl rfl)
    rw [← hxmax] at hv
    rw [filter_singleton, hv]
    exact .insert hxmin hxmax hn
  | @update c a b T r n writes ha hxmin hxmax hd hb h ih =>
    obtain ⟨hpa, hpa', hp'⟩ := hback hp ha
    have hpb := hp b (by simp) (.inl hxmin) _ (.inl rfl)
    rw [← hxmax] at hpb
    have hih := ih hp'
    rw [filter_append, filter_singleton, hpa'] at hih
    rw [filter_append, filter_cons_of_pos hpa, filter_singleton, hpb]
    exact .update ha hxmin hxmax hd hb hih
  | @delete c a T r n writes ha hd h ih =>
    obtain ⟨hpa, hpa', hp'⟩ := hback hp ha
    have hih := ih hp'
    rw [filter_append, filter_singleton, hpa'] at hih
    rw [filter_append, filter_singleton, hpa]
    exact .delete ha hd hih

end Tail

variable {c : List Version}

lemma Trimmed.not_mentioned {c' : List Version} (h : Trimmed c' c) {y : TxnId}
    (hc : ∀ v ∈ c, v.xmin ≠ y ∧ v.xmax ≠ some y) : ∀ v ∈ c', v.xmin ≠ y ∧ v.xmax ≠ some y := by
  intro v hv
  obtain ⟨d, hsub, rfl | ⟨e, a, rfl, rfl⟩⟩ := h
  · exact hc v (hsub.subset hv)
  · rcases mem_snoc.mp hv with hv | rfl
    · exact hc v (hsub.subset (mem_append_left _ hv))
    · exact ⟨(hc a (hsub.subset (by simp))).1, nofun⟩

/-! ### Undoing a write -/

/-- What undoing the write at position `n` leaves: the other rows, and the chain without the write.
-/
structure Undone (x : TxnId) (birth death : ℕ → ℕ) (r : RowId) (n : ℕ)
    (writes : List (UndoEntry × ℕ)) (t t' : Table) : Prop where
  others : ∀ r', r' ≠ r → t'.rows.get? r' = t.rows.get? r'
  mine : (t'.rows.get? r = none ∧ writes = []) ∨
    ∃ c', t'.rows.get? r = some c' ∧ Tail x birth death writes c'
  versions : ∀ r' v', Stored t'.rows r' v' → ∃ v, Stored t.rows r' v ∧ (v' = v ∨
    (r' = r ∧ v' = { v with xmax := none } ∧ v.xmax = some x ∧ death v.seq = n))
  framed : ∀ r', without x (t'.chainOf r') = without x (t.chainOf r')

lemma Tail.undo {x : TxnId} {birth death : ℕ → ℕ} {writes : List (UndoEntry × ℕ)}
    {entry : UndoEntry} {n : ℕ} {t : Table}
    (h : Tail x birth death ((entry, n) :: writes) c) (hc : t.rows.get? entry.row = some c) :
    ∃ removed t', undoTable x t entry = some (removed, t') ∧
      Undone x birth death entry.row n writes t t' := by
  have hreset : ∀ {r : RowId} {e : List Version} {a : Version} {d : List Version},
      t.rows.get? r = some d → without x d = without x (e ++ [a]) → (∀ v ∈ e, v ∈ d) → a ∈ d →
      a.xmax = some x → death a.seq = n →
      Tail x birth death writes (e ++ [{ a with xmax := Option.none }]) →
      Undone x birth death r n writes t 
        (t.withChain r (e ++ [{ a with xmax := Option.none }])) := by
    intro r e a d hd hframe hsub ha hx hn htail
    refine ⟨fun r' hr' => OrderedMap.get?_insert_ne _ _ hr', .inr ⟨_, ?_, htail⟩, ?_,
      Framed.withChain hd ?_⟩
    · exact OrderedMap.get?_insert_self _ _ _
    · intro r' v' hv'
      rcases stored_insert_iff.mp hv' with ⟨rfl, hmem⟩ | ⟨_, hold⟩
      · rcases mem_append.mp hmem with hmem | hmem
        · exact ⟨v', ⟨d, hd, hsub v' hmem⟩, .inl rfl⟩
        · exact ⟨a, ⟨d, hd, ha⟩, .inr ⟨rfl, mem_singleton.mp hmem, hx, hn⟩⟩
      · exact ⟨v', hold, .inl rfl⟩
    · rw [hframe, without_append, without_append, without_reset hx]
  cases h with
  | @insert v T r n hxmin hxmax hbirth =>
    refine ⟨_, _, rfl, fun r' hr' => OrderedMap.get?_erase_ne _ hr', .inl ⟨?_, rfl⟩, ?_, ?_⟩
    · exact (OrderedMap.get?_erase _ _ _).trans (if_pos rfl)
    · exact fun r' v' hv' => ⟨v', (stored_erase_iff.mp hv').2, .inl rfl⟩
    · intro r'
      rw [Table.chainOf, Table.chainOf, Table.removeRow, OrderedMap.get?_erase]
      split_ifs with hr
      · subst hr
        rw [show t.rows.get? r' = some [v] from hc]
        exact (without_singleton_of_creator hxmin).symm
      · rfl
  | @update e a b T r n writes ha hxmin hxmax hdeath hbirth h =>
    have hframe : without x (e ++ [a, b]) = without x (e ++ [a]) := by
      rw [show e ++ [a, b] = e ++ [a] ++ [b] by simp, without_append _ _ [b],
        without_singleton_of_creator hxmin, append_nil]
    refine ⟨[(r, b)], _, ?_, hreset hc hframe (by simp +contextual) (by simp) ha hdeath h⟩
    have hu : t.undoUpdate x r = some (b, _) :=
      Table.undoUpdate_eq_some_iff.mpr ⟨e, a, hc, ha, hxmin, hxmax, rfl⟩
    rw [undoTable, hu]
    rfl
  | @delete e a T r n writes ha hdeath h =>
    refine ⟨[], _, ?_, hreset hc rfl (by simp +contextual) (by simp) ha hdeath h⟩
    have hu : t.undoDelete x r = some _ := Table.undoDelete_eq_some_iff.mpr ⟨e, a, hc, ha, rfl⟩
    rw [undoTable, hu]
    rfl

end VaubanDB
