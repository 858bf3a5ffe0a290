import VaubanDB.Memory.Views

/-!
Runs without a vacuum, whatever values are stored.

Without a vacuum no transaction is forgotten: those that a stored version names, and those that
have ended, stay in the registry, so their statuses are their own (`Owned`).  A row whose insert
can still be undone holds versions of its creator only, so undoing the writes of a transaction
leaves the versions of the others, also when the undo stops half way (`Call.others_after`).
-/

namespace VaubanDB

open MemoryStorage OrderedMap List Option

/-- The registry knows whom the versions name and who has ended; a row whose insert is in a log
holds versions of one transaction. -/
structure Owned (s : Inner) (ended : Set TxnId) : Prop where
  table_lt : ∀ x T r, .insert T r ∈ s.logs x → T < s.nextTableId
  row_lt : ∀ x T r, .insert T r ∈ s.logs x → ∀ t, s.tables.get? T = some t → r < t.nextRowId
  inserted : ∀ x T r, .insert T r ∈ s.logs x → ∀ c, s.Chain T r c → ∀ v ∈ c, v.xmin = x
  named : ∀ T r c, s.Chain T r c → ∀ v ∈ c, ∀ x, v.xmin = x ∨ v.xmax = some x →
    s.txns.get? x ≠ none
  ended : ∀ x ∈ ended, s.txns.get? x ≠ none

variable {x : TxnId}

lemma Trimmed.exists_named {c' c : List Version} (h : Trimmed c' c) {v : Version} (hv : v ∈ c')
    (hx : v.xmin = x ∨ v.xmax = some x) : ∃ u ∈ c, u.xmin = x ∨ u.xmax = some x := by
  obtain ⟨d, hsub, rfl | ⟨e, a, rfl, rfl⟩⟩ := h
  · exact ⟨v, hsub.subset hv, hx⟩
  · rcases mem_snoc.mp hv with hv | rfl
    · exact ⟨v, hsub.subset (mem_append_left _ hv), hx⟩
    · exact ⟨a, hsub.subset (by simp), .inl (hx.resolve_right nofun)⟩

variable {entry : UndoEntry} {T : TableId}

namespace Owned

variable {s s' : Inner} {ended ended' : Set TxnId}

variable (h : Owned s ended)
include h

/-- A change that trims the chains, forgets no transaction and adds nothing to the logs. -/
lemma of_trimmed (htrim : TrimmedFrom s s') (hlogs : ∀ x, ∀ e ∈ s'.logs x, e ∈ s.logs x)
    (hcounter : s.nextTableId ≤ s'.nextTableId)
    (hrow : ∀ T t', s'.tables.get? T = some t' → T = s.nextTableId ∨
      ∃ t, s.tables.get? T = some t ∧ t.nextRowId ≤ t'.nextRowId)
    (htxns : ∀ x, s.txns.get? x ≠ none → s'.txns.get? x ≠ none)
    (hended : ∀ x ∈ ended', x ∈ ended ∨ s'.txns.get? x ≠ none) : Owned s' ended' where
  table_lt x T r he := (h.table_lt x T r (hlogs x _ he)).trans_le hcounter
  row_lt := by
    intro x T r he t' ht'
    rcases hrow T t' ht' with hT | ⟨t, ht, hle⟩
    · exact absurd (h.table_lt x T r (hlogs x _ he)) (hT ▸ lt_irrefl _)
    · exact (h.row_lt x T r (hlogs x _ he) t ht).trans_le hle
  inserted := by
    intro x T r he c' hc' v hv
    obtain ⟨c, hc, ht⟩ := htrim T r c' hc'
    obtain ⟨u, hu, hxmin⟩ := ht.exists_creator hv
    exact hxmin ▸ h.inserted x T r (hlogs x _ he) c hc u hu
  named := by
    intro T r c' hc' v hv x hx
    obtain ⟨c, hc, ht⟩ := htrim T r c' hc'
    obtain ⟨u, hu, hux⟩ := ht.exists_named hv hx
    exact htxns x (h.named T r c hc u hu x hux)
  ended x hx := (hended x hx).elim (fun hx => htxns x (h.ended x hx)) id

lemma redefined {new : TableId → IndexShape → Prop}
    (hs' : Redefined new s s') : Owned s' ended := by
  refine h.of_trimmed (.of_redefined hs') (fun x e he => ?_) hs'.counter_le (fun T t' ht' => ?_)
    (fun x hx => hs'.txns_eq ▸ hx) fun _ => .inl
  · rwa [Inner.logs, Inner.stateOf, hs'.txns_eq] at he
  · rcases hs'.tables T t' ht' with ⟨hT, _⟩ | ⟨t, ht, _, hnext⟩
    · exact .inl hT
    · exact .inr ⟨t, ht, hnext.ge⟩

/-! ### Transactions registered again -/

variable {txn : TxnId} {state : TxnState}

omit h in
lemma mem_logs_insertTxn {e : UndoEntry} (hwrites : ∀ e ∈ state.writes, e ∈ s.logs txn)
    (he : e ∈ ({ s with txns := s.txns.insert txn state } : Inner).logs x) : e ∈ s.logs x := by
  rw [Inner.logs, Inner.stateOf, get?_insert] at he
  split_ifs at he with hx
  · exact hx ▸ hwrites e he
  · exact he

lemma insertTxn (txn : TxnId) (hwrites : ∀ e ∈ state.writes, e ∈ s.logs txn)
    (hended : ∀ x ∈ ended', x = txn ∨ x ∈ ended) :
    Owned { s with txns := s.txns.insert txn state } ended' := by
  have hregistered : ∀ x, s.txns.get? x ≠ none ∨ x = txn →
      (s.txns.insert txn state).get? x ≠ none := by
    intro x hx
    rw [get?_insert]
    split_ifs with hxt
    · nofun
    · exact hx.resolve_right hxt
  refine h.of_trimmed (.of_eq rfl) (fun x e => mem_logs_insertTxn hwrites) le_rfl
    (fun T t ht => .inr ⟨t, ht, le_rfl⟩) (fun x hx => hregistered x (.inl hx)) fun x hx => ?_
  exact (hended x hx).symm.imp_right fun hxt => hregistered x (.inr hxt)

/-! ### Undo -/

lemma undoAll (txn : TxnId) (writes : List UndoEntry) :
    Owned (MemoryStorage.undoAll txn writes s).state ended := by
  have hback := takenBack_undoAll s txn writes
  refine h.of_trimmed hback.trimmed (fun x e he => ?_) hback.nextTableId_eq.ge
    (fun T t ht => .inr (hback.tables T t ht)) (fun x hx => hback.txns_eq ▸ hx) fun _ => .inl
  rwa [Inner.logs, Inner.stateOf, hback.txns_eq] at he

/-! ### Writes -/

variable {planned : List PlannedEntry} {t : Table}

/-- A write on row `r` of table `T`: the other chains are as they were, and the versions of the
row name `txn` and whom they named. -/
lemma written (hcat : Catalog s) {t' : Table} (ht : s.tables.get? T = some t) {r : RowId}
    (hnext : t.nextRowId ≤ t'.nextRowId) (hothers : ∀ r', r' ≠ r → t'.rows.get? r' = t.rows.get? r')
    (hentry : ∀ T' r', entry = .insert T' r' → T' = T ∧ r' = r ∧ r < t'.nextRowId)
    (hinserted : ∀ x, .insert T r ∈ s.logs x ∨ (x = txn ∧ entry = .insert T r) →
      ∀ c, t'.rows.get? r = some c → ∀ v ∈ c, v.xmin = x)
    (hnamed : ∀ c, t'.rows.get? r = some c → ∀ v ∈ c, ∀ x, v.xmin = x ∨ v.xmax = some x →
      x = txn ∨ s.txns.get? x ≠ none) :
    Owned (s.written txn T t' planned entry) ended := by
  have hregistered : ∀ x, x = txn ∨ s.txns.get? x ≠ none →
      (s.written txn T t' planned entry).txns.get? x ≠ none := by
    intro x hx
    rw [Inner.written, logWrite, get?_insert]
    split_ifs with hxt
    · simp
    · exact hx.resolve_left hxt
  have hlog : ∀ {x T' r'}, .insert T' r' ∈ (s.written txn T t' planned entry).logs x →
      .insert T' r' ∈ s.logs x ∨ (x = txn ∧ entry = .insert T' r') := fun he =>
    (mem_log_write (logs_written .. ▸ he)).imp_right fun h => ⟨h.1, h.2.symm⟩
  -- a chain of the new state is the one written or an old one
  have hchain : ∀ {T' r' c}, (s.written txn T t' planned entry).Chain T' r' c →
      (T' = T ∧ r' = r ∧ t'.rows.get? r = some c) ∨ (s.Chain T' r' c ∧ ¬ (T' = T ∧ r' = r)) := by
    rintro T' r' c ⟨u, hu, hc⟩
    rw [Inner.written, get?_insert] at hu
    split_ifs at hu with hT
    · obtain rfl := some.inj hu
      by_cases hr : r' = r
      · exact .inl ⟨hT, hr, hr ▸ hc⟩
      · exact .inr ⟨⟨t, hT ▸ ht, hothers r' hr ▸ hc⟩, fun h => hr h.2⟩
    · exact .inr ⟨⟨u, hu, hc⟩, fun h => hT h.1⟩
  refine ⟨?_, ?_, ?_, ?_, fun x hx => hregistered x (.inr (h.ended x hx))⟩
  · intro x T' r' he
    rcases hlog he with he | ⟨_, he⟩
    · exact h.table_lt x T' r' he
    · exact (hentry T' r' he).1 ▸ hcat.table_lt T t ht
  · intro x T' r' he u hu
    rw [Inner.written, get?_insert] at hu
    split_ifs at hu with hT
    · obtain rfl := some.inj hu
      rcases hlog he with he | ⟨_, he⟩
      · exact (h.row_lt x T' r' he t (hT ▸ ht)).trans_le hnext
      · obtain ⟨_, rfl, hlt⟩ := hentry T' r' he
        exact hlt
    · rcases hlog he with he | ⟨_, he⟩
      · exact h.row_lt x T' r' he u hu
      · exact absurd (hentry T' r' he).1 hT
  · intro x T' r' he c hc v hv
    rcases hchain hc with ⟨rfl, rfl, hc⟩ | ⟨hc, hne⟩
    · exact hinserted x (hlog he) c hc v hv
    · rcases hlog he with he | ⟨_, he⟩
      · exact h.inserted x T' r' he c hc v hv
      · exact absurd ⟨(hentry T' r' he).1, (hentry T' r' he).2.1⟩ hne
  · intro T' r' c hc v hv x hx
    rcases hchain hc with ⟨rfl, rfl, hc⟩ | ⟨hc, _⟩
    · exact hregistered x (hnamed c hc v hv x hx)
    · exact hregistered x (.inr (h.named T' r' c hc v hv x hx))

lemma insert (hcat : Catalog s)
    (ht : s.tables.get? T = some t) (row : Row) (planned : List PlannedEntry) :
    Owned (s.written txn T (t.withRow txn row) planned (.insert T t.nextRowId)) ended := by
  have hrow : ∀ c, (t.withRow txn row).rows.get? t.nextRowId = some c →
      c = [⟨txn, none, row, t.nextSeq⟩] := by
    intro c hc
    rw [Table.withRow, get?_insert_self] at hc
    exact (some.inj hc).symm
  refine h.written hcat ht (r := t.nextRowId) (Nat.le_succ _) (fun r' hr' => ?_) ?_ ?_ ?_
  · rw [Table.withRow, get?_insert, if_neg hr']
  · rintro T' r' he
    cases he
    exact ⟨rfl, rfl, Nat.lt_succ_self _⟩
  · rintro x (he | ⟨rfl, _⟩) c hc v hv
    · exact absurd (h.row_lt x T _ he t ht) (lt_irrefl _)
    · obtain rfl := mem_singleton.mp (hrow c hc ▸ hv)
      rfl
  · rintro c hc v hv x hx
    obtain rfl := mem_singleton.mp (hrow c hc ▸ hv)
    exact .inl (hx.resolve_right (by simp)).symm

section Current

variable {txn : TxnId} {T : TableId} {t : Table} {r : RowId} {c : List Version} {a : Version}

lemma eq_of_current {hist : History} (hl : Ledger s.txns hist)
    (hc : s.Chain T r (c ++ [a])) (hcurrent : a.xmin = txn ∨ s.status a.xmin = .committed)
    (hx : .insert T r ∈ s.logs x) : x = txn := by
  have ha := h.inserted x T r hx _ hc a (by simp)
  rcases hcurrent with hown | hstatus
  · exact ha.symm.trans hown
  · -- the log of a committed transaction is empty
    exfalso
    rw [ha, Inner.status, statusIn] at hstatus
    rw [Inner.logs, Inner.stateOf] at hx
    rcases hs : s.txns.get? x with _ | st
    · simp [hs, TxnState.inProgress] at hx
    simp only [hs, getD_some] at hx hstatus
    have hwrites := (hl.finished x st hs (by simp [hstatus])).1
    rw [hwrites] at hx
    cases hx

lemma rewritten (hcat : Catalog s) {hist : History} (hl : Ledger s.txns hist)
    (ht : s.tables.get? T = some t) (hc : t.rows.get? r = some (c ++ [a]))
    (hcurrent : a.xmin = txn ∨ s.status a.xmin = .committed) (t' : Table) (tail : List Version)
    (htail : ∀ v ∈ tail, v.xmin = txn ∧ v.xmax = none)
    (hrows : t'.rows = t.rows.insert r (c ++ { a with xmax := some txn } :: tail))
    (hnext : t'.nextRowId = t.nextRowId)
    (hentry : ∀ T' r', entry ≠ .insert T' r') :
    Owned (s.written txn T t' planned entry) ended := by
  have hchain : s.Chain T r (c ++ [a]) := ⟨t, ht, hc⟩
  have hget : ∀ c', t'.rows.get? r = some c' → c' = c ++ { a with xmax := some txn } :: tail := by
    intro c' hc'
    rw [hrows, get?_insert_self] at hc'
    exact (some.inj hc').symm
  refine h.written hcat ht hnext.ge (r := r) (fun r' hr' => ?_)
    (fun T' r' he => absurd he (hentry T' r')) ?_ ?_
  · rw [hrows, get?_insert, if_neg hr']
  · rintro x (he | ⟨_, he⟩) c' hc' v hv
    · obtain rfl := h.eq_of_current hl hchain hcurrent he
      rw [hget c' hc'] at hv
      have hold := h.inserted x T r he _ hchain
      rcases mem_append.mp hv with hv | hv
      · exact hold v (by simp [hv])
      · rcases mem_cons.mp hv with rfl | hv
        · exact hold a (by simp)
        · exact (htail v hv).1
    · exact absurd he (hentry T r)
  · intro c' hc' v hv x hx
    rw [hget c' hc'] at hv
    have hold := h.named T r _ hchain
    rcases mem_append.mp hv with hv | hv
    · exact .inr (hold v (by simp [hv]) x hx)
    · rcases mem_cons.mp hv with rfl | hv
      · rcases hx with hx | hx
        · exact .inr (hold a (by simp) x (.inl hx))
        · exact .inl (some.inj hx).symm
      · rcases hx with hx | hx
        · exact .inl (hx.symm.trans (htail v hv).1)
        · rw [(htail v hv).2] at hx
          cases hx

end Current

end Owned

/-! ### Runs -/

def Call.isVacuum : Call → Bool
  | .vacuum _ => true
  | _ => false

variable {s : Inner}

/-- Every call but a vacuum keeps what the registry knows. -/
theorem Owned.after {h : History} (hown : Owned s h.ended) (hcat : Catalog s)
    (hrows : Rows s) (hl : Ledger s.txns h) (c : Call) (hvacuum : c.isVacuum = false)
    (hlive : ∀ t, c.txn? = some t → t ∉ h.ended) : Owned (c.after s) (h.after c).ended := by
  have heff := c.effect hcat hrows
  generalize c.after s = s' at heff ⊢
  cases heff with
  | idle hend =>
    cases c <;> first
      | exact hown
      | exact absurd (hl.stateOf_of_live (hlive _ rfl)) (hend _ (by simp))
  | redefined hdef hs' => cases c <;> cases hdef <;> exact hown.redefined hs'
  | inserted ht _ _ => exact hown.insert hcat ht _ _
  | @updated x T r row t c a planned ht hc _ hcurrent _ _ =>
    exact hown.rewritten hcat hl ht hc hcurrent (t.withUpdate x r c a row)
      [⟨x, none, row, t.nextSeq⟩] (by simp) rfl rfl nofun
  | @deleted x T r t c a ht hc _ hcurrent _ =>
    have hentry : ∀ T' r', UndoEntry.delete T r ≠ .insert T' r' := nofun
    exact hown.rewritten hcat hl ht hc hcurrent (t.withChain r (c ++ [{ a with xmax := some x }]))
      [] (by simp) rfl rfl hentry
  | @marked x marks n _ _ =>
    have hsame : Owned { s with txns := s.txns.insert x { s.stateOf x with savepoints := marks } }
        h.ended := hown.insertTxn x (fun _ he => he) fun _ => .inr
    exact ⟨hsame.table_lt, hsame.row_lt, hsame.inserted, hsame.named, hsame.ended⟩
  | committed _ =>
    exact hown.insertTxn _ (fun _ he => absurd he (by simp [TxnState.finished])) fun _ hx => hx
  | rolledBack _ =>
    exact (hown.insertTxn _ (fun _ he => absurd he (by simp [TxnState.finished]))
      fun _ hx => hx).undoAll _ _
  | returned hs _ _ _ =>
    refine (hown.insertTxn _ (fun e he => ?_) fun _ => .inr).undoAll _ _
    rw [Inner.logs, Inner.stateOf, hs]
    exact mem_of_mem_take he
  | vacuumed horizon => cases hvacuum

theorem Site.Reachable.owned {σ : Site} (h : σ.Reachable fun _ c => c.isVacuum = false) :
    Owned σ.inner σ.history.ended := by
  have hall : (Catalog σ.inner ∧ Rows σ.inner) ∧ Registry σ.inner σ.history ∧
      Owned σ.inner σ.history.ended := by
    refine h.induction (P := fun σ => (Catalog σ.inner ∧ Rows σ.inner) ∧
      Registry σ.inner σ.history ∧ Owned σ.inner σ.history.ended)
      ⟨initial_sound, initial_registry, ?_⟩ ?_
    · refine ⟨nofun, nofun, nofun, ?_, nofun⟩
      rintro T r c ⟨t, ht, _⟩
      cases ht
    · rintro σ c ⟨⟨hcat, hrows⟩, hreg, hown⟩ hlive hc
      exact ⟨c.after_sound hcat hrows, hreg.after hcat hrows c hlive,
        hown.after hcat hrows hreg.ledger c hc hlive⟩
  exact hall.2.2

/-! ### The versions of the others -/

/-- The versions of the other transactions are as they were. -/
def SameOthers (x : TxnId) (s s' : Inner) : Prop :=
  ∀ T r, without x (s'.chainOf T r) = without x (s.chainOf T r)

lemma undo_sameOthers
    (hins : ∀ T r, entry = .insert T r → ∀ c, s.Chain T r c → ∀ v ∈ c, v.xmin = x) :
    SameOthers x s (MemoryStorage.undo x entry s).state := by
  refine undo_rule (SameOthers x s) (fun _ _ => rfl) fun t removed t' ht hu => ?_
  have hrow : ∀ r, without x (t'.chainOf r) = without x (t.chainOf r) := by
    intro r
    cases undoTable_cases hu with
    | insert T r₀ =>
      rw [Table.chainOf, Table.removeRow, get?_erase]
      split_ifs with hr
      · rw [Table.chainOf]
        rcases hc : t.rows.get? r with _ | c
        · rfl
        have hx := hins T r₀ rfl c ⟨t, ht, hr ▸ hc⟩
        have hnil : c.filter (fun v => decide (v.xmin ≠ x)) = [] :=
          filter_eq_nil_iff.mpr fun v hv => by simp [hx v hv]
        rw [getD_some, without, without, hnil]
        rfl
      · rfl
    | @update _ _ c a b hc ha hb =>
      refine Framed.withChain hc ?_ r
      rw [show c ++ [a, b] = c ++ [a] ++ [b] by simp, without_append, without_append,
        without_append, without_reset ha, without_singleton_of_creator hb, append_nil]
    | delete hc ha =>
      refine Framed.withChain hc ?_ r
      rw [without_append, without_append, without_reset ha]
  rw [removeFromIndexes_frame]
  intro T r
  rw [Inner.chainOf, Inner.chainOf, get?_insert]
  split_ifs with hT
  · rw [hT, ht]
    exact hrow r
  · rfl

lemma undoAll_sameOthers {writes : List UndoEntry}
    (hins : ∀ T r, .insert T r ∈ writes → ∀ c, s.Chain T r c → ∀ v ∈ c, v.xmin = x) :
    SameOthers x s (MemoryStorage.undoAll x writes s).state := by
  have hall := EStateM.Preserves.forM (l := writes.reverse) (f := undo x)
    (P := fun s' => SameOthers x s s' ∧ TakenBack s s') (fun entry hmem s' hs' => ?_) s
    ⟨fun _ _ => rfl, rfl, rfl, fun _ t ht => ⟨t, ht, le_rfl⟩, .refl s⟩
  · exact hall.1
  · refine ⟨fun T r => ?_, TakenBack.undo s x entry s' hs'.2⟩
    rw [undo_sameOthers ?_ T r, hs'.1 T r]
    rintro T r rfl c' hc' v hv
    obtain ⟨c, hc, htrim⟩ := hs'.2.trimmed T r c' hc'
    obtain ⟨u, hu, hxmin⟩ := htrim.exists_creator hv
    exact hxmin ▸ hins T r (mem_reverse.mp hmem) c hc u hu

/-- A call of a transaction that writes, marks or ends leaves the versions of the others. -/
theorem Call.others_after {ended : Set TxnId} (hown : Owned s ended)
    (hcat : Catalog s) (hrows : Rows s) {c : Call} (hx : c.txn? = some x) :
    SameOthers x s (c.after s) := by
  rcases framed_or_undoes hcat hrows hx with hframed | rfl | ⟨sp, rfl⟩
  · exact hframed.chains
  · simp only [after, exec, state_map]
    rcases rollback_outcome s x with ⟨_, ho, _⟩ | ⟨_, ho⟩ <;> rw [ho]
    · exact fun _ _ => rfl
    · exact undoAll_sameOthers (s := { s with txns := s.txns.insert x (.finished .aborted) })
        fun T r he => hown.inserted x T r he
  · simp only [after, exec, state_map]
    rcases rollbackTo_outcome sp with ⟨e, ho, _⟩ | ⟨state, pos, mark, hs, _, _, _, ho⟩ <;> rw [ho]
    · exact fun _ _ => rfl
    · refine undoAll_sameOthers (s := { s with txns := _ }) fun T r he => hown.inserted x T r ?_
      rw [Inner.logs, Inner.stateOf, hs]
      exact mem_of_mem_drop he

/-- **What a transaction does, and undoes, leaves the versions of the others**: over any calls of
its own that follow a run without a vacuum. -/
theorem calls_leave_the_others {σ σ' : Site} (h : σ.Reachable fun _ c => c.isVacuum = false)
    (hrun : Relation.ReflTransGen (Site.Step fun _ c => c.txn? = some x) σ σ') :
    SameOthers x σ.inner σ'.inner := by
  have hall : (σ'.Reachable fun _ c => c.isVacuum = false) ∧ SameOthers x σ.inner σ'.inner := by
    induction hrun with
    | refl => exact ⟨h, fun _ _ => rfl⟩
    | tail _ hs ih =>
      obtain ⟨hreach, hsame⟩ := ih
      cases hs with
      | call c hlive hx =>
        have hc : c.isVacuum = false := by cases c <;> first | rfl | cases hx
        exact ⟨hreach.tail (.call c hlive hc), fun T r =>
          (Call.others_after hreach.owned hreach.sound.1 hreach.sound.2 hx T r).trans (hsame T r)⟩
  exact hall.2

/-- Transaction 2 deletes the row of transaction 1, and rolls back. -/
theorem undone_delete_leaves_the_others : ∃ σ σ' : Site, σ'.inner.status 2 = .aborted ∧
    σ.inner.chainOf 1 1 ≠ [] ∧ SameOthers 2 σ.inner σ'.inner := by
  have hnone : ∀ (σ : Site) (c : Call), c.txn? = none → ∀ t, c.txn? = some t →
      t ∉ σ.history.ended := fun _ _ h t ht => by cases h.symm.trans ht
  have h : Site.Reachable (fun _ c => c.isVacuum = false) ((((Site.initial.after
      (.createDatabase "d")).after (.createTable 1 ⟨[⟨.float, true, none⟩], none⟩)).after
      (.insert 1 1 [.null])).after (.commit 1)) :=
    (((Relation.ReflTransGen.refl.tail (.call _ (hnone _ _ rfl) rfl)).tail
      (.call _ (hnone _ _ rfl) rfl)).tail (.call _ (fun _ _ => id) rfl)).tail
      (.call _ (fun _ _ => id) rfl)
  have hrun : ∀ σ : Site, 2 ∉ σ.history.ended → Relation.ReflTransGen
      (Site.Step fun _ c => c.txn? = some 2) σ ((σ.after (.delete 2 1 1)).after (.rollback 2)) :=
    fun σ h2 => .tail (.single (.call (.delete 2 1 1) (fun _ ht => Option.some.inj ht ▸ h2) rfl))
      (.call (.rollback 2) (fun _ ht => Option.some.inj ht ▸ h2) rfl)
  exact ⟨_, _, by decide +kernel, by decide +kernel,
    calls_leave_the_others h (hrun _ (show ¬(2 = 1 ∨ False) by decide))⟩

lemma Call.nextRowId_after (hcat : Catalog s) (hrows : Rows s) {c : Call}
    (hx : c.txn? = some x) {t' : Table} (ht' : (c.after s).tables.get? T = some t') :
    ∃ t, s.tables.get? T = some t ∧ t.nextRowId ≤ t'.nextRowId := by
  have heff := c.effect hcat hrows
  generalize c.after s = s' at heff ht'
  have hwritten : ∀ {T' t u}, (s.tables.insert T' u).get? T = some t' → s.tables.get? T' = some t →
      t.nextRowId ≤ u.nextRowId → ∃ t, s.tables.get? T = some t ∧ t.nextRowId ≤ t'.nextRowId := by
    intro T' t u hu ht hle
    rcases get?_insert_eq_some.mp hu with ⟨rfl, rfl⟩ | ⟨_, hu⟩
    · exact ⟨t, ht, hle⟩
    · exact ⟨t', hu, le_rfl⟩
  have hundo : ∀ {y writes txns}, (undoAll y writes { s with txns }).state.tables.get? T = some t' →
      ∃ t, s.tables.get? T = some t ∧ t.nextRowId ≤ t'.nextRowId :=
    fun {_ _ txns} h => (takenBack_undoAll { s with txns } _ _).tables T t' h
  cases heff with
  | idle _ | marked _ _ | committed _ => exact ⟨t', ht', le_rfl⟩
  | redefined hc _ => cases c <;> cases hc <;> cases hx
  | inserted ht _ _ => exact hwritten ht' ht (Nat.le_succ _)
  | updated ht _ _ _ _ _ | deleted ht _ _ _ _ => exact hwritten ht' ht (Nat.le_refl _)
  | rolledBack _ | returned _ _ _ _ => exact hundo ht'
  | vacuumed horizon => cases hx

end VaubanDB
