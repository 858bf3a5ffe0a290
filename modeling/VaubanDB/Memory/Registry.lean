import VaubanDB.Memory.Calls

/-!
The registry of transactions and the chains of versions in every run.

`Ledger` ties what the registry says of a transaction to the history.  `Chained` says that the
creator of a stored version is registered or committed, and that a version which is not the last of
its chain was replaced by the creator of any later one or by a committed transaction.  Both hold
after every call, also after a rollback or a vacuum that stopped half way.
-/

namespace VaubanDB

open MemoryStorage OrderedMap List Option

def Inner.Chain (s : Inner) (T : TableId) (r : RowId) (c : List Version) : Prop :=
  ∃ t, s.tables.get? T = some t ∧ t.rows.get? r = some c

/-- `a` was deleted by the creator of `b`, or by a committed transaction. -/
def Superseded (committed : Set TxnId) (a b : Version) : Prop :=
  ∃ w, a.xmax = some w ∧ (w = b.xmin ∨ w ∈ committed)

/-- The registry agrees with the history. -/
structure Ledger (txns : OrderedMap TxnId TxnState) (h : History) : Prop where
  finished : ∀ x st, txns.get? x = some st → st.status ≠ .inProgress →
    st.writes = [] ∧ st.savepoints = []
  marks_sorted : ∀ x st, txns.get? x = some st → (st.savepoints.map Prod.snd).Pairwise (· ≤ ·)
  marks_le : ∀ x st, txns.get? x = some st → ∀ p ∈ st.savepoints, p.2 ≤ st.writes.length
  live : ∀ x st, txns.get? x = some st → st.status = .inProgress → x ∉ h.ended
  committed : ∀ x st, txns.get? x = some st → st.status = .committed → x ∈ h.committed
  aborted : ∀ x st, txns.get? x = some st → st.status = .aborted → x ∈ h.ended ∧ x ∉ h.committed
  ended : ∀ x ∈ h.committed, x ∈ h.ended

/-- The chains agree with the registry and the history. -/
structure Chained (s : Inner) (h : History) : Prop where
  creator : ∀ T r c, s.Chain T r c → ∀ v ∈ c, s.txns.get? v.xmin = none → v.xmin ∈ h.committed
  superseded : ∀ T r c, s.Chain T r c → c.Pairwise (Superseded h.committed)

variable {s : Inner}

namespace Ledger

variable {txns : OrderedMap TxnId TxnState} {h : History} {x : TxnId}

variable (hl : Ledger txns h)
include hl

lemma status_of_committed (hx : x ∈ h.committed) : statusIn txns x = .committed := by
  rw [statusIn]
  rcases hs : txns.get? x with _ | st
  · rfl
  cases hst : st.status with
  | committed => exact hst
  | inProgress => exact absurd (hl.ended x hx) (hl.live x st hs hst)
  | aborted => exact absurd hx (hl.aborted x st hs hst).2

omit hl in
lemma stateOf_of_live (hl : Ledger s.txns h) (hx : x ∉ h.ended) :
    (s.stateOf x).status = .inProgress := by
  rw [Inner.stateOf]
  rcases hs : s.txns.get? x with _ | st
  · rfl
  simp only [getD_some]
  cases hst : st.status with
  | inProgress => rfl
  | committed => exact absurd (hl.ended x (hl.committed x st hs hst)) hx
  | aborted => exact absurd (hl.aborted x st hs hst).1 hx

structure Entry (h : History) (x : TxnId) (st : TxnState) : Prop where
  finished : st.status ≠ .inProgress → st.writes = [] ∧ st.savepoints = []
  marks_sorted : (st.savepoints.map Prod.snd).Pairwise (· ≤ ·)
  marks_le : ∀ p ∈ st.savepoints, p.2 ≤ st.writes.length
  live : st.status = .inProgress → x ∉ h.ended
  committed : st.status = .committed → x ∈ h.committed
  aborted : st.status = .aborted → x ∈ h.ended ∧ x ∉ h.committed

lemma entry {st : TxnState} (hx : txns.get? x = some st) : Entry h x st :=
  ⟨hl.finished x st hx, hl.marks_sorted x st hx, hl.marks_le x st hx, hl.live x st hx,
    hl.committed x st hx, hl.aborted x st hx⟩

omit hl in
lemma of_entries (hentry : ∀ x st, txns.get? x = some st → Entry h x st)
    (hended : ∀ x ∈ h.committed, x ∈ h.ended) : Ledger txns h :=
  ⟨fun x st hx => (hentry x st hx).finished, fun x st hx => (hentry x st hx).marks_sorted,
    fun x st hx => (hentry x st hx).marks_le, fun x st hx => (hentry x st hx).live,
    fun x st hx => (hentry x st hx).committed, fun x st hx => (hentry x st hx).aborted, hended⟩

/-- A transaction that has not ended gets another log, with marks that point into it. -/
lemma insert (hx : x ∉ h.ended) {st : TxnState}
    (hstatus : st.status = .inProgress) (hsorted : (st.savepoints.map Prod.snd).Pairwise (· ≤ ·))
    (hle : ∀ p ∈ st.savepoints, p.2 ≤ st.writes.length) : Ledger (txns.insert x st) h := by
  refine of_entries (fun y st' hy => ?_) hl.ended
  rcases get?_insert_eq_some.mp hy with ⟨rfl, rfl⟩ | ⟨_, hy⟩
  · refine ⟨fun hst => absurd hstatus hst, hsorted, hle, fun _ => hx, fun hst => ?_,
      fun hst => ?_⟩ <;>
      cases hstatus.symm.trans hst
  · exact hl.entry hy

omit hl in
lemma marks (hl : Ledger s.txns h) (x : TxnId) :
    ((s.stateOf x).savepoints.map Prod.snd).Pairwise (· ≤ ·) ∧
      ∀ p ∈ (s.stateOf x).savepoints, p.2 ≤ (s.stateOf x).writes.length := by
  rw [Inner.stateOf]
  cases hs : s.txns.get? x with
  | none => exact ⟨.nil, forall_mem_nil _⟩
  | some st => exact ⟨hl.marks_sorted x st hs, hl.marks_le x st hs⟩

omit hl in
lemma logWrite (hl : Ledger s.txns h) (hx : x ∉ h.ended) (entry : UndoEntry) :
    Ledger (MemoryStorage.logWrite s.txns x (s.stateOf x) entry) h := by
  refine hl.insert hx (hl.stateOf_of_live hx) (hl.marks x).1 fun p hp => ?_
  rw [length_append]
  exact ((hl.marks x).2 p hp).trans (Nat.le_add_right _ _)

lemma finish (hx : x ∉ h.ended) {status : TxnStatus} (hstatus : status ≠ .inProgress) {h' : History}
    (hended : ∀ y, y ∈ h'.ended ↔ y = x ∨ y ∈ h.ended)
    (hcommitted : ∀ y, y ∈ h'.committed ↔ (y = x ∧ status = .committed) ∨ y ∈ h.committed) :
    Ledger (txns.insert x (.finished status)) h' := by
  refine of_entries (fun y st' hy => ?_) fun y hy => ?_
  · rcases get?_insert_eq_some.mp hy with ⟨rfl, rfl⟩ | ⟨hyx, hy⟩
    · refine ⟨fun _ => ⟨rfl, rfl⟩, .nil, nofun, fun hst => absurd hst hstatus,
        fun hst => (hcommitted y).mpr (.inl ⟨rfl, hst⟩),
        fun hst => ⟨(hended y).mpr (.inl rfl), fun hmem => ?_⟩⟩
      rcases (hcommitted y).mp hmem with ⟨_, hc⟩ | hmem
      · cases hc.symm.trans hst
      · exact hx (hl.ended y hmem)
    · have hold := hl.entry hy
      refine ⟨hold.finished, hold.marks_sorted, hold.marks_le,
        fun hst hmem => ((hended y).mp hmem).elim hyx (hold.live hst),
        fun hst => (hcommitted y).mpr (.inr (hold.committed hst)), fun hst => ?_⟩
      obtain ⟨hend, hcom⟩ := hold.aborted hst
      exact ⟨(hended y).mpr (.inr hend),
        fun hmem => ((hcommitted y).mp hmem).elim (fun hxy => hyx hxy.1) hcom⟩
  · rw [hended]
    exact ((hcommitted y).mp hy).imp And.left (hl.ended y)

lemma commit (hx : x ∉ h.ended) :
    Ledger (txns.insert x (.finished .committed)) (h.after (.commit x)) :=
  hl.finish hx (by decide) (fun _ => Iff.rfl) fun y => by
    rw [and_iff_left rfl]
    exact Iff.rfl

lemma rollback (hx : x ∉ h.ended) :
    Ledger (txns.insert x (.finished .aborted)) (h.after (.rollback x)) :=
  hl.finish hx (by decide) (fun _ => Iff.rfl) fun y =>
    ⟨.inr, fun hy => hy.elim (fun hxy => nomatch hxy.2) id⟩

lemma filter (p : TxnId → TxnState → Bool) : Ledger (txns.filter p) h := by
  refine of_entries (fun x st hx => ?_) hl.ended
  rw [get?_filter, filter_eq_some_iff] at hx
  exact hl.entry hx.1

end Ledger

/-! ### Chains -/

/-- `c'` is `c` without some of its versions, the deleter of the last one being reset or not. -/
def Trimmed (c' c : List Version) : Prop :=
  ∃ d, d.Sublist c ∧ (c' = d ∨ ∃ e a, d = e ++ [a] ∧ c' = e ++ [{ a with xmax := none }])

lemma Trimmed.refl (c : List Version) : Trimmed c c := ⟨c, .refl c, .inl rfl⟩

variable {c' c : List Version}

lemma Trimmed.exists_creator (h : Trimmed c' c) {v : Version}
    (hv : v ∈ c') : ∃ w ∈ c, w.xmin = v.xmin := by
  obtain ⟨d, hsub, rfl | ⟨e, a, rfl, rfl⟩⟩ := h
  · exact ⟨v, hsub.subset hv, rfl⟩
  · rcases mem_snoc.mp hv with hv | rfl
    · exact ⟨v, hsub.subset (mem_append_left _ hv), rfl⟩
    · exact ⟨a, hsub.subset (by simp), rfl⟩

section Pairwise

-- a relation between versions that does not look at the deleter of the later one
variable {R : Version → Version → Prop} (hR : ∀ a b y, R a b → R a { b with xmax := y })
include hR

lemma pairwise_stamp_last {e : List Version} {a : Version} (x : Option TxnId)
    (h : (e ++ [a]).Pairwise R) : (e ++ [{ a with xmax := x }]).Pairwise R := by
  rw [pairwise_append] at h ⊢
  refine ⟨h.1, by simp, fun v hv w hw => ?_⟩
  obtain rfl := mem_singleton.mp hw
  exact hR v a x (h.2.2 v hv a (by simp))

lemma Trimmed.pairwise (h : Trimmed c' c) (hc : c.Pairwise R) : c'.Pairwise R := by
  obtain ⟨d, hsub, rfl | ⟨e, a, rfl, rfl⟩⟩ := h
  · exact hc.sublist hsub
  · exact pairwise_stamp_last hR none (hc.sublist hsub)

end Pairwise

variable {committed : Set TxnId}

lemma superseded_stamp (a b : Version) (y : Option TxnId)
    (h : Superseded committed a b) : Superseded committed a { b with xmax := y } := h

lemma Trimmed.trans {c₁ : List Version} (h : Trimmed c' c₁) (h₁ : Trimmed c₁ c) : Trimmed c' c := by
  obtain ⟨d₁, hsub₁, rfl | ⟨e₁, a₁, rfl, rfl⟩⟩ := h₁
  · obtain ⟨d, hsub, hd⟩ := h
    exact ⟨d, hsub.trans hsub₁, hd⟩
  · -- the last version of `c₁` is the reset one, and it is kept or not
    obtain ⟨d, hsub, hd⟩ := h
    have hcases : d.Sublist e₁ ∨
        ∃ e, d = e ++ [{ a₁ with xmax := none }] ∧ (e ++ [a₁]).Sublist (e₁ ++ [a₁]) := by
      obtain ⟨l, l', rfl, hl, hl'⟩ := sublist_append_iff.mp hsub
      rcases sublist_singleton.mp hl' with rfl | rfl
      · exact .inl (by simpa using hl)
      · exact .inr ⟨l, rfl, hl.append_right _⟩
    rcases hcases with hd₁ | ⟨e, rfl, he⟩
    · exact ⟨d, (hd₁.trans (sublist_append_left _ _)).trans hsub₁, hd⟩
    · refine ⟨e ++ [a₁], he.trans hsub₁, .inr ⟨e, a₁, rfl, ?_⟩⟩
      rcases hd with rfl | ⟨f, b, hf, rfl⟩
      · rfl
      · obtain ⟨rfl, hab⟩ := append_inj' hf rfl
        rw [cons.injEq] at hab
        rw [← hab.1]

def TrimmedFrom (s s' : Inner) : Prop :=
  ∀ T r c', s'.Chain T r c' → ∃ c, s.Chain T r c ∧ Trimmed c' c

variable {T : TableId} {t' t : Table}

namespace TrimmedFrom

variable {s s₁ s' : Inner}

lemma refl (s : Inner) : TrimmedFrom s s := fun _ _ c hc => ⟨c, hc, .refl c⟩

lemma trans (h : TrimmedFrom s s₁) (h' : TrimmedFrom s₁ s') : TrimmedFrom s s' := by
  intro T r c' hc'
  obtain ⟨c₁, hc₁, htrim'⟩ := h' T r c' hc'
  obtain ⟨c, hc, htrim⟩ := h T r c₁ hc₁
  exact ⟨c, hc, htrim'.trans htrim⟩

lemma of_eq (h : s'.tables = s.tables) : TrimmedFrom s s' := by
  rintro T r c' ⟨t, ht, hc⟩
  exact ⟨c', ⟨t, h ▸ ht, hc⟩, .refl c'⟩

lemma of_redefined {new : TableId → IndexShape → Prop} (h : Redefined new s s') :
    TrimmedFrom s s' := by
  rintro T r c' ⟨t', ht', hc'⟩
  rcases h.tables T t' ht' with ⟨_, hempty⟩ | ⟨t, ht, heq, _⟩
  · rw [hempty] at hc'
    cases hc'
  · exact ⟨c', ⟨t, ht, heq ▸ hc'⟩, .refl c'⟩

lemma insertTable (ht : s.tables.get? T = some t)
    (h : ∀ r c', t'.rows.get? r = some c' → ∃ c, t.rows.get? r = some c ∧ Trimmed c' c)
    (htables : s'.tables = s.tables.insert T t') : TrimmedFrom s s' := by
  rintro T' r c' ⟨u, hu, hc'⟩
  rw [htables] at hu
  rcases get?_insert_eq_some.mp hu with ⟨rfl, rfl⟩ | ⟨_, hu⟩
  · obtain ⟨c, hc, htrim⟩ := h r c' hc'
    exact ⟨c, ⟨t, ht, hc⟩, htrim⟩
  · exact ⟨c', ⟨u, hu, hc'⟩, .refl c'⟩

end TrimmedFrom

variable {txn : TxnId} {entry : UndoEntry} {removed : List (RowId × Version)} {r : RowId}

lemma undoTable_trimmed (hu : undoTable txn t entry = some (removed, t'))
    (hc' : t'.rows.get? r = some c') : ∃ c, t.rows.get? r = some c ∧ Trimmed c' c := by
  have hchain : ∀ {r₀ : RowId} {e d : List Version} {a : Version}, t.rows.get? r₀ = some d →
      (e ++ [a]).Sublist d →
      (t.withChain r₀ (e ++ [{ a with xmax := none }])).rows.get? r = some c' →
      ∃ c, t.rows.get? r = some c ∧ Trimmed c' c := by
    intro r₀ e d a hd hsub hget
    rcases get?_insert_eq_some.mp hget with ⟨rfl, rfl⟩ | ⟨_, hget⟩
    · exact ⟨d, hd, _, hsub, .inr ⟨e, a, rfl, rfl⟩⟩
    · exact ⟨c', hget, .refl c'⟩
  cases undoTable_cases hu with
  | insert => exact ⟨c', (get?_erase_eq_some.mp hc').2, .refl c'⟩
  | update hd => exact hchain hd (by simp) hc'
  | delete hd => exact hchain hd (.refl _) hc'

def Table.frame (t : Table) : Table := { t with rows := .empty }

lemma frame_undoTable (hu : undoTable txn t entry = some (removed, t')) : t'.frame = t.frame := by
  cases undoTable_cases hu <;> rfl

/-- What the undo of writes leaves, whether it succeeds or fails. -/
structure TakenBack (s₀ s : Inner) : Prop where
  txns_eq : s.txns = s₀.txns
  nextTableId_eq : s.nextTableId = s₀.nextTableId
  tables : ∀ T t', s.tables.get? T = some t' → ∃ t, s₀.tables.get? T = some t ∧
    t.nextRowId ≤ t'.nextRowId
  trimmed : TrimmedFrom s₀ s

lemma TakenBack.undo (s₀ : Inner) (txn : TxnId) (entry : UndoEntry) :
    EStateM.Preserves (TakenBack s₀) (MemoryStorage.undo txn entry) := by
  intro s h
  refine undo_rule (TakenBack s₀) h fun t _ _ ht hu => ?_
  rw [removeFromIndexes_frame]
  refine ⟨h.txns_eq, h.nextTableId_eq, fun T u hu' => ?_, h.trimmed.trans (.insertTable ht
    (fun r c' hc' => undoTable_trimmed hu hc') rfl)⟩
  rcases get?_insert_eq_some.mp hu' with ⟨rfl, rfl⟩ | ⟨_, hu'⟩
  · have hnext : u.frame.nextRowId = t.frame.nextRowId := by rw [frame_undoTable hu]
    obtain ⟨t₀, ht₀, hle⟩ := h.tables _ t ht
    exact ⟨t₀, ht₀, hle.trans_eq hnext.symm⟩
  · exact h.tables T u hu'

lemma takenBack_undoAll (s : Inner) (txn : TxnId) (writes : List UndoEntry) :
    TakenBack s (MemoryStorage.undoAll txn writes s).state :=
  EStateM.Preserves.forM (fun entry _ => TakenBack.undo s txn entry) s
    ⟨rfl, rfl, fun _ t ht => ⟨t, ht, le_rfl⟩, .refl s⟩

namespace TrimmedFrom

lemma vacuumTable (s₀ : Inner) (horizon : TxnId) (status : TxnId → TxnStatus) (T : TableId) :
    EStateM.Preserves (fun s => s.txns = s₀.txns ∧ TrimmedFrom s₀ s)
      (MemoryStorage.vacuumTable horizon status T) := by
  intro s h
  cases ht : s.tables.get? T with
  | none =>
    rw [vacuumTable_of_none ht]
    exact h
  | some t =>
    rw [vacuumTable_eq ht, removeFromIndexes_frame]
    refine ⟨h.1, h.2.trans (insertTable ht (fun r c' hc' => ?_) rfl)⟩
    rw [Table.vacuum_get?, filter_eq_some_iff, map_eq_some_iff] at hc'
    obtain ⟨⟨c, hc, rfl⟩, _⟩ := hc'
    exact ⟨c, hc, _, filter_sublist, .inl rfl⟩

lemma vacuumLoop (s : Inner) (horizon : TxnId) :
    (s.tables.keys.forM (MemoryStorage.vacuumTable horizon s.status) s).state.txns = s.txns ∧
      TrimmedFrom s (s.tables.keys.forM (MemoryStorage.vacuumTable horizon s.status) s).state :=
  EStateM.Preserves.forM (fun T _ => vacuumTable s horizon s.status T) s ⟨rfl, .refl s⟩

lemma vacuum (s : Inner) (horizon : TxnId) : TrimmedFrom s (MemoryStorage.vacuum horizon s).state :=
  vacuum_rule (TrimmedFrom s) horizon (vacuumLoop s horizon).2 fun _ _ h => h.trans (.of_eq rfl)

end TrimmedFrom

inductive ChainStep (s : Inner) (T : TableId) (r : RowId) : Call → List Version → Prop
  | trimmed {call : Call} {c c' : List Version} (hc : s.Chain T r c) (h : Trimmed c' c) :
      ChainStep s T r call c'
  | inserted {txn : TxnId} {row : Row} {v : Version} (hxmin : v.xmin = txn)
      (hxmax : v.xmax = none) (hnew : ∀ t, s.tables.get? T = some t → r = t.nextRowId) :
      ChainStep s T r (.insert txn T row) [v]
  | deleted {txn : TxnId} {c : List Version} {a : Version} (hc : s.Chain T r (c ++ [a]))
      (hxmax : a.xmax = none) :
      ChainStep s T r (.delete txn T r) (c ++ [{ a with xmax := some txn }])
  | updated {txn : TxnId} {row : Row} {c : List Version} {a b : Version}
      (hc : s.Chain T r (c ++ [a])) (hxmax : a.xmax = none) (hb : b.xmin = txn)
      (hcurrent : b.xmax = none) :
      ChainStep s T r (.update txn T r row) (c ++ [{ a with xmax := some txn }, b])

/-- What a chain is after a call. -/
theorem Call.chain_cases (hcat : Catalog s) (hrows : Rows s) (call : Call)
    (h : (call.after s).Chain T r c') : ChainStep s T r call c' := by
  have heff := call.effect hcat hrows
  generalize call.after s = s' at heff h
  have htrim : TrimmedFrom s s' → ChainStep s T r call c' := fun ht =>
    let ⟨_, hc, htrim⟩ := ht T r c' h
    .trimmed hc htrim
  -- a chain of the state after a write is an old one or the one that is written
  have hwritten : ∀ {x T' t t' planned entry r' d}, s.tables.get? T' = some t →
      (s.written x T' t' planned entry).Chain T r c' → t'.rows = t.rows.insert r' d →
      (T = T' → r = r' → c' = d → ChainStep s T r call c') → ChainStep s T r call c' := by
    rintro x T' t t' planned entry r' d ht ⟨u, hu, hc⟩ hset hnew
    rcases get?_insert_eq_some.mp hu with ⟨rfl, rfl⟩ | ⟨_, hu⟩
    · rw [hset] at hc
      rcases get?_insert_eq_some.mp hc with ⟨hr, hd⟩ | ⟨_, hc⟩
      · exact hnew rfl hr hd
      · exact .trimmed ⟨t, ht, hc⟩ (.refl c')
    · exact .trimmed ⟨u, hu, hc⟩ (.refl c')
  cases heff with
  | idle _ => exact htrim (.refl s)
  | redefined _ hs' => exact htrim (.of_redefined hs')
  | inserted ht _ _ =>
    refine hwritten ht h rfl ?_
    rintro rfl rfl rfl
    exact .inserted rfl rfl fun u hu => by rw [mem_unique hu ht]
  | updated ht hc hxmax _ _ _ =>
    refine hwritten ht h rfl ?_
    rintro rfl rfl rfl
    exact .updated ⟨_, ht, hc⟩ hxmax rfl rfl
  | deleted ht hc hxmax _ _ =>
    refine hwritten ht h rfl ?_
    rintro rfl rfl rfl
    exact .deleted ⟨_, ht, hc⟩ hxmax
  | marked _ _ | committed _ => exact htrim (.of_eq rfl)
  | rolledBack _ | returned _ _ _ _ => exact htrim (takenBack_undoAll _ _ _).trimmed
  | vacuumed horizon => exact htrim (.vacuum s horizon)

namespace Chained

variable {s s' : Inner} {h h' : History}

variable (hc : Chained s h)
include hc

lemma of_trimmed (htxns : s'.txns = s.txns) (htrim : TrimmedFrom s s') : Chained s' h where
  creator := by
    intro T r c' hc' v hv hnone
    obtain ⟨c, hchain, ht⟩ := htrim T r c' hc'
    obtain ⟨w, hw, hxmin⟩ := ht.exists_creator hv
    rw [htxns] at hnone
    rw [← hxmin] at hnone ⊢
    exact hc.creator T r c hchain w hw hnone
  superseded := by
    intro T r c' hc'
    obtain ⟨c, hchain, ht⟩ := htrim T r c' hc'
    exact ht.pairwise superseded_stamp (hc.superseded T r c hchain)

lemma of_txns (htables : s'.tables = s.tables) (hcom : ∀ x ∈ h.committed, x ∈ h'.committed)
    (htxns : ∀ T r c, s.Chain T r c → ∀ v ∈ c, s'.txns.get? v.xmin = none →
      s.txns.get? v.xmin = none ∨ v.xmin ∈ h'.committed) :
    Chained s' h' where
  creator := by
    rintro T r c ⟨t, ht, hr⟩ v hv hnone
    rw [htables] at ht
    rcases htxns T r c ⟨t, ht, hr⟩ v hv hnone with hn | hm
    · exact hcom _ (hc.creator T r c ⟨t, ht, hr⟩ v hv hn)
    · exact hm
  superseded := by
    rintro T r c ⟨t, ht, hr⟩
    rw [htables] at ht
    refine (hc.superseded T r c ⟨t, ht, hr⟩).imp ?_
    rintro a b ⟨w, hw, heq⟩
    exact ⟨w, hw, heq.imp id (hcom w)⟩

lemma insertTxn (h' : History) (hcom : ∀ x ∈ h.committed, x ∈ h'.committed)
    (x : TxnId) (st : TxnState) : Chained { s with txns := s.txns.insert x st } h' := by
  refine hc.of_txns rfl hcom fun T r c _ v _ hnone => .inl ?_
  simp only [get?_insert] at hnone
  split_ifs at hnone
  exact hnone

lemma creator_committed (hl : Ledger s.txns h) (hchain : s.Chain T r c) {v : Version} (hv : v ∈ c)
    (hstatus : s.status v.xmin = .committed) : v.xmin ∈ h.committed := by
  rw [Inner.status, statusIn] at hstatus
  cases hs : s.txns.get? v.xmin with
  | none => exact hc.creator T r c hchain v hv hs
  | some st =>
    rw [hs] at hstatus
    exact hl.committed _ st hs hstatus

/-- A write of `txn` on one table, which gives its chains that are new the right shape. -/
lemma written {planned : List PlannedEntry} (ht : s.tables.get? T = some t)
    (hnew : ∀ r c', t'.rows.get? r = some c' → t.rows.get? r = some c' ∨
      (c'.Pairwise (Superseded h.committed) ∧ ∀ v ∈ c', v.xmin = txn ∨
        ∃ c, t.rows.get? r = some c ∧ ∃ w ∈ c, w.xmin = v.xmin)) :
    Chained (s.written txn T t' planned entry) h := by
  have htxns : ∀ x, (s.written txn T t' planned entry).txns.get? x = none →
      x ≠ txn ∧ s.txns.get? x = none := by
    intro x hx
    simp only [Inner.written, logWrite, get?_insert] at hx
    split_ifs at hx with hxt
    exact ⟨hxt, hx⟩
  have hcases : ∀ T' r c', (s.written txn T t' planned entry).Chain T' r c' →
      s.Chain T' r c' ∨ (T' = T ∧ t'.rows.get? r = some c') := by
    rintro T' r c' ⟨u, hu, hr⟩
    rcases get?_insert_eq_some.mp hu with ⟨hT, rfl⟩ | ⟨_, hu⟩
    · exact .inr ⟨hT, hr⟩
    · exact .inl ⟨u, hu, hr⟩
  refine ⟨fun T' r c' hchain v hv hnone => ?_, fun T' r c' hchain => ?_⟩
  · obtain ⟨hne, hnone'⟩ := htxns _ hnone
    clear hnone
    rcases hcases T' r c' hchain with hold | ⟨rfl, hr⟩
    · exact hc.creator T' r c' hold v hv hnone'
    · rcases hnew r c' hr with hr | ⟨_, hcreators⟩
      · exact hc.creator T' r c' ⟨t, ht, hr⟩ v hv hnone'
      · rcases hcreators v hv with hx | ⟨c, hr, w, hw, hx⟩
        · exact absurd hx hne
        · rw [← hx] at hnone' ⊢
          exact hc.creator T' r c ⟨t, ht, hr⟩ w hw hnone'
  · rcases hcases T' r c' hchain with hold | ⟨rfl, hr⟩
    · exact hc.superseded T' r c' hold
    · rcases hnew r c' hr with hr | ⟨hp, _⟩
      · exact hc.superseded T' r c' ⟨t, ht, hr⟩
      · exact hp

omit hc

lemma pairwise_update {a b : Version}
    (h : (c ++ [a]).Pairwise (Superseded committed)) (ha : a.xmin = txn ∨ a.xmin ∈ committed)
    (hb : b.xmin = txn) :
    (c ++ [{ a with xmax := some txn }, b]).Pairwise (Superseded committed) := by
  rw [append_cons, pairwise_append]
  refine ⟨pairwise_stamp_last superseded_stamp (some txn) h, by simp, fun v hv w hw => ?_⟩
  obtain rfl := mem_singleton.mp hw
  rcases mem_snoc.mp hv with hv | rfl
  · obtain ⟨x, hx, heq⟩ := (pairwise_append.mp h).2.2 v hv a (by simp)
    refine ⟨x, hx, ?_⟩
    rcases heq with rfl | hx'
    · exact ha.imp (fun h => h.trans hb.symm) id
    · exact .inr hx'
  · exact ⟨txn, rfl, .inl hb.symm⟩

end Chained

/-! ### Every call keeps the registry -/

/-- The registry, the chains and the history agree. -/
structure Registry (s : Inner) (h : History) : Prop where
  ledger : Ledger s.txns h
  chained : Chained s h

namespace Registry

variable {s s' : Inner} {h : History}

lemma of_trimmed (hr : Registry s h) (htxns : s'.txns = s.txns) (htrim : TrimmedFrom s s') :
    Registry s' h :=
  ⟨htxns ▸ hr.ledger, hr.chained.of_trimmed htxns htrim⟩

lemma undoAll (hr : Registry s h) (x : TxnId) (writes : List UndoEntry) :
    Registry (MemoryStorage.undoAll x writes s).state h :=
  hr.of_trimmed (takenBack_undoAll s x writes).txns_eq (takenBack_undoAll s x writes).trimmed

lemma vacuum (hr : Registry s h) (horizon : TxnId) :
    Registry (MemoryStorage.vacuum horizon s).state h := by
  obtain ⟨htxns, htrim⟩ := TrimmedFrom.vacuumLoop s horizon
  refine vacuum_rule (Registry · h) horizon (hr.of_trimmed htxns htrim) fun s' hl hloop => ?_
  refine ⟨hloop.ledger.filter fun t state => !(state.isFinished && decide (t < horizon)),
    hloop.chained.of_txns rfl (fun _ hx => hx) ?_⟩
  -- a transaction is forgotten as committed, or none of its versions is left
  rintro T r c ⟨t, ht, hc⟩ v hv hnone
  rcases hs : s'.txns.get? v.xmin with _ | st
  · exact .inl rfl
  right
  have hk := (keeps_of_vacuumLoop hl ht ⟨c, hc, hv⟩).1
  have hnot : st.status ≠ .aborted := by
    intro hst
    rw [Table.keeps, Table.orphaned, Inner.status, statusIn, ← status_of_vacuumLoop hl, hs] at hk
    simp [hst] at hk
  have hfinished : st.status ≠ .inProgress := by
    intro hst
    rw [Inner.pruned, get?_filter, hs] at hnone
    simp [TxnState.isFinished, hst] at hnone
  cases hst : st.status with
  | committed => exact hloop.ledger.committed _ st hs hst
  | inProgress => exact absurd hst hfinished
  | aborted => exact absurd hst hnot

lemma marks_take {marks : List (SavepointId × ℕ)} {pos mark : ℕ} {sp : SavepointId}
    (hsorted : (marks.map Prod.snd).Pairwise (· ≤ ·)) (hpos : marks[pos]? = some (sp, mark))
    {p : SavepointId × ℕ} (hp : p ∈ marks.take (pos + 1)) : p ∈ marks ∧ p.2 ≤ mark := by
  obtain ⟨i, hi⟩ := mem_iff_getElem?.mp hp
  rw [getElem?_take] at hi
  split_ifs at hi with hlt
  refine ⟨mem_of_getElem? hi, ?_⟩
  rcases Nat.lt_or_eq_of_le (Nat.lt_succ_iff.mp hlt) with hip | rfl
  · refine rel_of_getElem?_of_pairwise hsorted hip ?_ ?_
    · rw [getElem?_map, hi, map_some]
    · rw [getElem?_map, hpos, map_some]
  · cases hpos.symm.trans hi
    exact le_rfl

/-- Every call of a transaction that has not ended keeps the registry. -/
theorem after (hr : Registry s h) (hcat : Catalog s) (hrows : Rows s) (c : Call)
    (hlive : ∀ t, c.txn? = some t → t ∉ h.ended) : Registry (c.after s) (h.after c) := by
  have heff := c.effect hcat hrows
  generalize c.after s = s' at heff ⊢
  cases heff with
  | idle hend =>
    have hsame : h.after c = h := by
      cases c <;> first
        | rfl
        | exact absurd (hr.ledger.stateOf_of_live (hlive _ rfl)) (hend _ (by simp))
    rw [hsame]
    exact hr
  | redefined hc hs' =>
    have hsame : h.after c = h := by
      cases c <;> first
        | rfl
        | cases hc
    rw [hsame]
    exact hr.of_trimmed hs'.txns_eq (.of_redefined hs')
  | inserted ht _ _ =>
    refine ⟨hr.ledger.logWrite (hlive _ rfl) _, hr.chained.written ht fun r c' hc' => ?_⟩
    rcases get?_insert_eq_some.mp hc' with ⟨_, rfl⟩ | ⟨_, hc'⟩
    · exact .inr ⟨by simp, fun v hv => .inl (by rw [mem_singleton.mp hv])⟩
    · exact .inl hc'
  | @updated x T r row t c a planned ht hc _ hcurrent _ _ =>
    have hchain : s.Chain T r (c ++ [a]) := ⟨t, ht, hc⟩
    refine ⟨hr.ledger.logWrite (hlive x rfl) _, hr.chained.written ht fun r' c' hc' => ?_⟩
    rcases get?_insert_eq_some.mp hc' with ⟨rfl, rfl⟩ | ⟨_, hc'⟩
    · refine .inr ⟨Chained.pairwise_update (hr.chained.superseded T r' _ hchain) ?_ rfl, ?_⟩
      · exact hcurrent.imp_right fun hs =>
          hr.chained.creator_committed hr.ledger hchain (by simp) hs
      · intro v hv
        simp only [mem_append, mem_cons, not_mem_nil, or_false] at hv
        rcases hv with hv | rfl | rfl
        · exact .inr ⟨_, hc, v, by simp [hv], rfl⟩
        · exact .inr ⟨_, hc, a, by simp, rfl⟩
        · exact .inl rfl
    · exact .inl hc'
  | @deleted x T r t c a ht hc _ _ _ =>
    refine ⟨hr.ledger.logWrite (hlive x rfl) _, hr.chained.written ht fun r' c' hc' => ?_⟩
    rcases get?_insert_eq_some.mp hc' with ⟨rfl, rfl⟩ | ⟨_, hc'⟩
    · refine .inr ⟨pairwise_stamp_last superseded_stamp _
        (hr.chained.superseded T r' _ ⟨t, ht, hc⟩), fun v hv => .inr ⟨_, hc, ?_⟩⟩
      rcases mem_snoc.mp hv with hv | rfl
      · exact ⟨v, by simp [hv], rfl⟩
      · exact ⟨a, by simp, rfl⟩
    · exact .inl hc'
  | @marked x marks n hstatus hmarks =>
    obtain ⟨hsorted, hle⟩ := hr.ledger.marks x
    refine ⟨hr.ledger.insert (hlive x rfl) hstatus ?_ ?_,
      (hr.chained.insertTxn _ (fun _ => id) x _).of_trimmed rfl fun _ _ c hc => ⟨c, hc, .refl c⟩⟩
    · rcases hmarks with rfl | rfl
      · exact hsorted
      · rw [map_append, pairwise_append]
        refine ⟨hsorted, by simp, fun m hm n hn => ?_⟩
        obtain ⟨p, hp, rfl⟩ := mem_map.mp hm
        obtain rfl : n = (s.stateOf x).writes.length := by simpa using hn
        exact hle p hp
    · rcases hmarks with rfl | rfl
      · exact hle
      · intro p hp
        rcases mem_append.mp hp with hp | hp
        · exact hle p hp
        · rw [mem_singleton.mp hp]
  | @committed x _ =>
    exact ⟨hr.ledger.commit (hlive x rfl),
      hr.chained.insertTxn (h.after (.commit x)) (fun _ hy => .inr hy) _ _⟩
  | @rolledBack x _ =>
    have hrolled : Registry { s with txns := s.txns.insert x (.finished .aborted) }
        (h.after (.rollback x)) :=
      ⟨hr.ledger.rollback (hlive x rfl),
        hr.chained.insertTxn (h.after (.rollback x)) (fun _ hy => hy) _ _⟩
    exact hrolled.undoAll x _
  | @returned x sp state pos mark hs hstatus hpos hmark =>
    have hsorted := hr.ledger.marks_sorted x state hs
    have hreturned : Registry { s with txns := s.txns.insert x { state with
        savepoints := state.savepoints.take (pos + 1)
        writes := state.writes.take mark } } h := by
      refine ⟨hr.ledger.insert (hlive x rfl) hstatus (hsorted.sublist ((take_sublist _ _).map _))
        fun p hp => ?_, hr.chained.insertTxn _ (fun _ => id) _ _⟩
      obtain ⟨hmem, hle⟩ := marks_take hsorted hpos hp
      rw [length_take]
      exact le_min hle (hr.ledger.marks_le x state hs p hmem)
    exact hreturned.undoAll x _
  | vacuumed horizon => exact hr.vacuum horizon

end Registry

lemma Site.initial_registry : Registry Site.initial.inner Site.initial.history := by
  refine ⟨⟨nofun, nofun, nofun, nofun, nofun, nofun, nofun⟩, ⟨?_, ?_⟩⟩
  · rintro T r c ⟨t, ht, _⟩
    cases ht
  · rintro T r c ⟨t, ht, _⟩
    cases ht

/-- The registry, the chains and the history agree in every run. -/
theorem Site.Reachable.registry {allowed : Inner → Call → Prop} {σ : Site}
    (h : σ.Reachable allowed) : Registry σ.inner σ.history := by
  have hall : (Catalog σ.inner ∧ Rows σ.inner) ∧ Registry σ.inner σ.history := by
    refine h.induction (P := fun σ => (Catalog σ.inner ∧ Rows σ.inner) ∧
      Registry σ.inner σ.history) ⟨initial_sound, initial_registry⟩ ?_
    rintro σ c ⟨⟨hcat, hrows⟩, hreg⟩ hlive _
    exact ⟨c.after_sound hcat hrows, hreg.after hcat hrows c hlive⟩
  exact hall.2

end VaubanDB
