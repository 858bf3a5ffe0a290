import VaubanDB.Memory.Index

/-!
The chains of row versions, and what each operation of a table does to them.

`Stored rows r v` says that `v` is one of the versions of row `r`.  `Table.WellFormed` is the
shape every table keeps: no empty chain, serial numbers that increase along a chain, and
identifiers and serial numbers below the counters that hand them out.
-/

namespace VaubanDB

open Option (mem_unique some map_some map_eq_some_iff)
open OrderedMap List

def Stored (rows : OrderedMap RowId (List Version)) (r : RowId) (v : Version) : Prop :=
  ∃ c, rows.get? r = some c ∧ v ∈ c

/-- The shape of a table that only the operations below have touched. -/
structure Table.WellFormed (t : Table) : Prop where
  chain_ne : ∀ r c, t.rows.get? r = some c → c ≠ []
  row_lt : ∀ r c, t.rows.get? r = some c → r < t.nextRowId
  seq_increasing : ∀ r c, t.rows.get? r = some c → c.Pairwise fun a b => a.seq < b.seq
  seq_lt : ∀ r v, Stored t.rows r v → v.seq < t.nextSeq
  arity_eq : ∀ r v, Stored t.rows r v → v.data.length = t.arity

/-! ### Lookup of a version -/

variable {rows : OrderedMap RowId (List Version)} {v : Version} {r : RowId}

lemma findVersion_eq_some {seq : ℕ}
    (h : findVersion rows r seq = some v) : Stored rows r v ∧ v.seq = seq := by
  rw [findVersion, Option.bind_eq_some_iff] at h
  obtain ⟨c, hc, hv⟩ := h
  exact ⟨⟨c, hc, mem_of_find?_eq_some hv⟩, by simpa using find?_some hv⟩

lemma findVersion_isSome (h : Stored rows r v) : ∃ w, findVersion rows r v.seq = some w := by
  obtain ⟨c, hc, hv⟩ := h
  cases hf : c.find? fun w => w.seq == v.seq with
  | some w => exact ⟨w, by rw [findVersion, hc]; exact hf⟩
  | none => simpa using find?_eq_none.mp hf v hv

namespace Table.WellFormed

variable {t : Table}

lemma eq_of_seq (h : t.WellFormed) {w : Version} (hv : Stored t.rows r v)
    (hw : Stored t.rows r w) (hseq : v.seq = w.seq) : v = w := by
  obtain ⟨c, hc, hv⟩ := hv
  obtain ⟨c', hc', hw⟩ := hw
  obtain rfl := mem_unique hc hc'
  by_contra hne
  rcases rel_or_rel_of_pairwise (h.seq_increasing r c hc) hv hw hne with hlt | hlt <;> omega

lemma findVersion_eq (h : t.WellFormed) (hv : Stored t.rows r v) :
    findVersion t.rows r v.seq = some v := by
  obtain ⟨w, hw⟩ := findVersion_isSome hv
  obtain ⟨hs, hseq⟩ := findVersion_eq_some hw
  rw [hw, h.eq_of_seq hs hv hseq]

lemma new (db : DbId) (shape : TableShape) (clustered : Option KeyOrder) :
    (Table.new db shape clustered).WellFormed where
  chain_ne := fun _ _ h => nomatch h
  row_lt := fun _ _ h => nomatch h
  seq_increasing := fun _ _ h => nomatch h
  seq_lt := fun _ _ h => by obtain ⟨_, h, _⟩ := h; exact nomatch h
  arity_eq := fun _ _ h => by obtain ⟨_, h, _⟩ := h; exact nomatch h

end Table.WellFormed

/-! ### Insertion and stamping -/

variable {a : Version} {c : List Version}

namespace Table

variable {t : Table} {txn : TxnId} {r : RowId}

def withRow (t : Table) (txn : TxnId) (data : Row) : Table :=
  { t with
    rows := t.rows.insert t.nextRowId [⟨txn, none, data, t.nextSeq⟩]
    nextRowId := t.nextRowId + 1
    nextSeq := t.nextSeq + 1 }

def withChain (t : Table) (r : RowId) (c : List Version) : Table :=
  { t with rows := t.rows.insert r c }

def withUpdate (t : Table) (txn : TxnId) (r : RowId) (c : List Version) (a : Version)
    (data : Row) : Table :=
  { t.withChain r (c ++ [{ a with xmax := some txn }, ⟨txn, none, data, t.nextSeq⟩]) with
    nextSeq := t.nextSeq + 1 }

lemma insert_eq (t : Table) (txn : TxnId) (data : Row) :
    t.insert txn data = (t.nextRowId, t.withRow txn data) := rfl

lemma supersede_some (h : t.rows.get? r = some (c ++ [a]))
    (data : Row) : t.supersede txn r (some data) = (true, t.withUpdate txn r c a data) := by
  simp [supersede, newVersion, h, withUpdate, withChain]

lemma supersede_none (h : t.rows.get? r = some (c ++ [a])) :
    t.supersede txn r none = (true, t.withChain r (c ++ [{ a with xmax := some txn }])) := by
  simp [supersede, h, withChain]

lemma latest_eq_some_iff : t.latest r = some a ↔ ∃ c, t.rows.get? r = some (c ++ [a]) := by
  rw [latest, Option.bind_eq_some_iff]
  constructor
  · rintro ⟨c, hc, ha⟩
    exact ⟨c.dropLast, by rw [hc, dropLast_append_getLast? a ha]⟩
  · rintro ⟨c, hc⟩
    exact ⟨_, hc, by simp⟩

/-! ### Undo -/

lemma undoUpdate_eq_some_iff {created : Version} {t' : Table} :
    t.undoUpdate txn r = some (created, t') ↔
      ∃ c a, t.rows.get? r = some (c ++ [a, created]) ∧ a.xmax = some txn ∧ created.xmin = txn ∧
        created.xmax = none ∧ t' = t.withChain r (c ++ [{ a with xmax := none }]) := by
  rw [undoUpdate]
  rcases hc : t.rows.get? r with _ | versions
  · simp
  simp only [some.injEq]
  constructor
  · intro h
    split at h
    next b a older hrev =>
      have hv : versions = older.reverse ++ [a, b] := by
        rw [← reverse_reverse versions, hrev]
        simp
      split_ifs at h with hcond
      simp only [some.injEq, Prod.mk.injEq] at h
      obtain ⟨rfl, rfl⟩ := h
      exact ⟨older.reverse, a, hv, hcond.1, hcond.2.1, hcond.2.2, rfl⟩
    next => cases h
  · rintro ⟨c, a, rfl, h1, h2, h3, rfl⟩
    simp [h1, h2, h3, withChain]

lemma undoDelete_eq_some_iff {t' : Table} : t.undoDelete txn r = some t' ↔
    ∃ c a, t.rows.get? r = some (c ++ [a]) ∧ a.xmax = some txn ∧
      t' = t.withChain r (c ++ [{ a with xmax := none }]) := by
  rw [undoDelete]
  rcases hc : t.rows.get? r with _ | versions
  · simp
  simp only [some.injEq]
  constructor
  · intro h
    rcases hl : versions.getLast? with _ | a
    · simp [hl] at h
    simp only [hl] at h
    split_ifs at h with hx
    simp only [some.injEq] at h
    exact ⟨versions.dropLast, a, (dropLast_append_getLast? a hl).symm, hx, h.symm⟩
  · rintro ⟨c, a, rfl, hx, rfl⟩
    simp [hx, withChain]

/-! ### Vacuum -/

def keeps (horizon : TxnId) (status : TxnId → TxnStatus) (v : Version) : Bool :=
  !expired horizon status v && !orphaned status v

variable {horizon : TxnId} {status : TxnId → TxnStatus}

/-- The chain of a row after a vacuum: the kept versions, if there is one. -/
lemma vacuum_get? (t : Table) (horizon : TxnId) (status : TxnId → TxnStatus) (r : RowId) :
    (t.vacuum horizon status).2.rows.get? r =
      ((t.rows.get? r).map (filter (keeps horizon status))).filter (!·.isEmpty) := by
  have hfilter : ∀ c : List Version,
      ((c.filter fun v => !expired horizon status v).filter fun v => !orphaned status v)
        = c.filter (keeps horizon status) := by
    intro c
    rw [filter_filter]
    refine filter_congr fun v _ => ?_
    rw [keeps, Bool.and_comm]
  simp only [vacuum, sweep, get?_filter, get?_mapVals, Option.map_map]
  cases t.rows.get? r with
  | none => rfl
  | some c => simp only [map_some, Function.comp_apply, hfilter]

lemma stored_vacuum_iff : Stored (t.vacuum horizon status).2.rows r v ↔
    Stored t.rows r v ∧ keeps horizon status v = true := by
  constructor
  · rintro ⟨c, hc, hv⟩
    rw [vacuum_get?, Option.filter_eq_some_iff, map_eq_some_iff] at hc
    obtain ⟨⟨c', hc', rfl⟩, _⟩ := hc
    obtain ⟨hv, hk⟩ := mem_filter.mp hv
    exact ⟨⟨c', hc', hv⟩, hk⟩
  · rintro ⟨⟨c, hc, hv⟩, hk⟩
    have hmem := mem_filter.mpr ⟨hv, hk⟩
    refine ⟨_, ?_, hmem⟩
    rw [vacuum_get?, hc, map_some, Option.filter_some, if_pos]
    simpa using ne_nil_of_mem hmem

variable {dead : Version → Bool}

lemma mem_sweep_iff : (r, v) ∈ (sweep rows dead).1 ↔ Stored rows r v ∧ dead v = true := by
  simp only [sweep, mem_flatMap, mem_map, mem_filter, Prod.exists, Prod.mk.injEq,
    Stored, get?_eq_some_iff]
  constructor
  · rintro ⟨r', c, hc, v', ⟨hv, hd⟩, rfl, rfl⟩
    exact ⟨⟨c, hc, hv⟩, hd⟩
  · rintro ⟨⟨c, hc, hv⟩, hd⟩
    exact ⟨r, c, hc, v, ⟨hv, hd⟩, rfl, rfl⟩

lemma mem_vacuum_iff : (r, v) ∈ (t.vacuum horizon status).1 ↔
    Stored t.rows r v ∧ keeps horizon status v = false := by
  have hsweep : Stored (sweep t.rows (expired horizon status)).2 r v ↔
      Stored t.rows r v ∧ expired horizon status v = false := by
    simp only [sweep, Stored, get?_mapVals, map_eq_some_iff]
    constructor
    · rintro ⟨_, ⟨c, hc, rfl⟩, hv⟩
      obtain ⟨hv, hd⟩ := mem_filter.mp hv
      exact ⟨⟨c, hc, hv⟩, by simpa using hd⟩
    · rintro ⟨⟨c, hc, hv⟩, hd⟩
      exact ⟨_, ⟨c, hc, rfl⟩, mem_filter.mpr ⟨hv, by simpa using hd⟩⟩
  simp only [vacuum, mem_append, mem_sweep_iff, hsweep, keeps]
  cases expired horizon status v <;> cases orphaned status v <;> simp

lemma sweep_distinct (hseq : ∀ r c, rows.get? r = some c → c.Pairwise fun a b => a.seq < b.seq) :
    (sweep rows dead).1.Pairwise fun x y => ¬ (x.1 = y.1 ∧ x.2.seq = y.2.seq) := by
  refine pairwise_flatMap.mpr ⟨?_, ?_⟩
  · rintro ⟨r, c⟩ hc
    refine pairwise_map.mpr (((hseq r c (get?_eq_some_iff.mpr hc)).filter _).imp ?_)
    intro a b hab heq
    exact absurd heq.2 (ne_of_lt hab)
  · refine rows.sorted.imp ?_
    rintro ⟨r, c⟩ ⟨r', c'⟩ hlt x hx y hy heq
    obtain ⟨v, _, rfl⟩ := mem_map.mp hx
    obtain ⟨w, _, rfl⟩ := mem_map.mp hy
    exact absurd heq.1 (ne_of_lt hlt)

lemma vacuum_distinct (h : t.WellFormed) : (t.vacuum horizon status).1.Pairwise
    fun x y => ¬ (x.1 = y.1 ∧ x.2.seq = y.2.seq) := by
  have hexp : ∀ r v, Stored (sweep t.rows (expired horizon status)).2 r v →
      Stored t.rows r v ∧ expired horizon status v = false := by
    rintro r v ⟨c, hc, hv⟩
    rw [sweep, get?_mapVals, map_eq_some_iff] at hc
    obtain ⟨c', hc', rfl⟩ := hc
    obtain ⟨hv, hd⟩ := mem_filter.mp hv
    exact ⟨⟨c', hc', hv⟩, by simpa using hd⟩
  refine pairwise_append.mpr ⟨sweep_distinct h.seq_increasing, sweep_distinct ?_, ?_⟩
  · intro r c hc
    simp only [get?_mapVals, map_eq_some_iff] at hc
    obtain ⟨c', hc', rfl⟩ := hc
    exact (h.seq_increasing r c' hc').filter _
  · rintro ⟨r, v⟩ hv ⟨r', w⟩ hw ⟨rfl, hseq⟩
    obtain ⟨hsv, hdv⟩ := mem_sweep_iff.mp hv
    obtain ⟨hsw, _⟩ := mem_sweep_iff.mp hw
    obtain ⟨hsw, hdw⟩ := hexp _ _ hsw
    rw [h.eq_of_seq hsv hsw hseq, hdw] at hdv
    cases hdv

end Table

/-! ### The shape is kept -/

/-- What no operation changes in a version: its serial number, its content, its creator. -/
def Version.core (v : Version) : ℕ × Row × TxnId := (v.seq, v.data, v.xmin)

def Shrinks (rows rows' : OrderedMap RowId (List Version)) : Prop :=
  ∀ r v', Stored rows' r v' → ∃ v, Stored rows r v ∧ v.core = v'.core

lemma stored_insert_iff {r' : RowId} : Stored (rows.insert r c) r' v ↔
      (r' = r ∧ v ∈ c) ∨ (r' ≠ r ∧ Stored rows r' v) := by
  rw [Stored]
  by_cases h : r' = r
  · subst h
    simp
  · simp [get?_insert_ne _ _ h, h, Stored]

namespace Table.WellFormed

variable {t : Table} {r : RowId} {c c' : List Version}

variable (h : t.WellFormed)
include h

/-- The chains of a table are those of `t`, or sound by themselves. -/
lemma of_chains {t' : Table} (harity : t'.arity = t.arity) (hrow : t.nextRowId ≤ t'.nextRowId)
    (hseq : t.nextSeq ≤ t'.nextSeq)
    (hchain : ∀ r c, t'.rows.get? r = some c → t.rows.get? r = some c ∨ c ≠ [] ∧
      r < t'.nextRowId ∧ (c.Pairwise fun a b => a.seq < b.seq) ∧
      ∀ v ∈ c, v.seq < t'.nextSeq ∧ v.data.length = t.arity) : t'.WellFormed := by
  refine ⟨fun r c hc => ?_, fun r c hc => ?_, fun r c hc => ?_, fun r v ⟨c, hc, hv⟩ => ?_,
    fun r v ⟨c, hc, hv⟩ => ?_⟩ <;> rcases hchain r c hc with hold | hnew
  · exact h.chain_ne r c hold
  · exact hnew.1
  · exact (h.row_lt r c hold).trans_le hrow
  · exact hnew.2.1
  · exact h.seq_increasing r c hold
  · exact hnew.2.2.1
  · exact (h.seq_lt r v ⟨c, hold, hv⟩).trans_le hseq
  · exact (hnew.2.2.2 v hv).1
  · exact (h.arity_eq r v ⟨c, hold, hv⟩).trans harity.symm
  · exact (hnew.2.2.2 v hv).2.trans harity.symm

lemma withRow (txn : TxnId) {data : Row} (harity : data.length = t.arity) :
    (t.withRow txn data).WellFormed := by
  refine h.of_chains rfl (Nat.le_succ _) (Nat.le_succ _) fun r c hc => ?_
  rcases get?_insert_eq_some.mp hc with ⟨rfl, rfl⟩ | ⟨_, hc⟩
  · exact .inr ⟨by simp, Nat.lt_succ_self _, by simp, by simp [Table.withRow, harity]⟩
  · exact .inl hc

/-- A chain replaced by one with no other versions, up to their deleters. -/
lemma withChain (hc : t.rows.get? r = some c) (hne : c' ≠ [])
    (hcore : (c'.map Version.core).Sublist (c.map Version.core)) :
    (t.withChain r c').WellFormed := by
  refine h.of_chains rfl le_rfl le_rfl fun r' d hd => ?_
  rcases get?_insert_eq_some.mp hd with ⟨rfl, rfl⟩ | ⟨_, hd⟩
  · have hseq : (c.map Version.core).Pairwise fun a b => a.1 < b.1 :=
      pairwise_map.mpr (h.seq_increasing r' c hc)
    have hsub := pairwise_map.mp (hseq.sublist hcore)
    refine .inr ⟨hne, h.row_lt r' c hc, hsub, fun v hv => ?_⟩
    obtain ⟨w, hw, heq⟩ := mem_map.mp (hcore.subset (mem_map_of_mem hv))
    rw [← show w.seq = v.seq from congrArg Prod.fst heq,
      ← show w.data = v.data from congrArg (fun p => p.2.1) heq]
    exact ⟨h.seq_lt r' w ⟨c, hc, hw⟩, h.arity_eq r' w ⟨c, hc, hw⟩⟩
  · exact .inl hd

lemma withUpdate (txn : TxnId) {data : Row}
    (hc : t.rows.get? r = some (c ++ [a])) (harity : data.length = t.arity) :
    (t.withUpdate txn r c a data).WellFormed := by
  have hstamped : (t.withChain r (c ++ [{ a with xmax := some txn }])).WellFormed :=
    h.withChain hc (by simp) (by simp [Version.core])
  have hrow : (t.withChain r (c ++ [{ a with xmax := some txn }])).rows.get? r
      = some (c ++ [{ a with xmax := some txn }]) := by simp [Table.withChain]
  have hlt : ∀ v ∈ c ++ [{ a with xmax := some txn }], v.seq < t.nextSeq :=
    fun v hv => hstamped.seq_lt r v ⟨_, hrow, hv⟩
  refine h.of_chains rfl le_rfl (Nat.le_succ _) fun r' d hd => ?_
  rcases get?_insert_eq_some.mp hd with ⟨rfl, rfl⟩ | ⟨_, hd⟩
  · rw [append_cons]
    refine .inr ⟨by simp, h.row_lt r' _ hc, pairwise_append.mpr
      ⟨hstamped.seq_increasing r' _ hrow, by simp, by simpa using hlt⟩, fun v hv => ?_⟩
    rcases mem_append.mp hv with hv | hv
    · exact ⟨Nat.lt_succ_of_lt (hlt v hv), hstamped.arity_eq r' v ⟨_, hrow, hv⟩⟩
    · obtain rfl := mem_singleton.mp hv
      exact ⟨Nat.lt_succ_self _, harity⟩
  · exact .inl hd

lemma removeRow (r : RowId) : (t.removeRow r).2.WellFormed :=
  h.of_chains rfl le_rfl le_rfl fun _ _ hc => .inl (get?_erase_eq_some.mp hc).2

lemma vacuum (horizon : TxnId) (status : TxnId → TxnStatus) :
    (t.vacuum horizon status).2.WellFormed := by
  refine h.of_chains rfl le_rfl le_rfl fun r c hc => ?_
  rw [vacuum_get?, Option.filter_eq_some_iff, map_eq_some_iff] at hc
  obtain ⟨⟨c', hc', rfl⟩, hne⟩ := hc
  refine .inr ⟨by simpa using hne, h.row_lt r c' hc', (h.seq_increasing r c' hc').filter _,
    fun v hv => ?_⟩
  have hstored : Stored t.rows r v := ⟨c', hc', mem_of_mem_filter hv⟩
  exact ⟨h.seq_lt r v hstored, h.arity_eq r v hstored⟩

end Table.WellFormed

end VaubanDB
