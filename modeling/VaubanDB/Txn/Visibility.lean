import VaubanDB.Txn.Lifecycle

/-!
What the snapshots of the manager show.

A snapshot counts as done its own transaction and those that had committed and were closed when it
was built (`Lives.done`).  Of the versions of these transactions only the last one of a row can be
seen, so each row is shown as they left it (`rowAsOf`).  The exclusive locks are needed: between the
commit in the storage and the removal from the list of the open transactions, a second transaction
could otherwise replace a row, commit and be closed first.
-/

namespace VaubanDB

open MemoryStorage List

/-! ### Rows as some transactions left them -/

open Classical in
/-- The row as `settled` left it: the content of their last version, unless they deleted it. -/
noncomputable def rowAsOf (settled : Set TxnId) (c : List Version) : Option Row :=
  (c.filter fun v => decide (v.xmin ∈ settled)).getLast?.bind fun v =>
    if ∃ x ∈ settled, v.xmax = some x then none else some v.data

section RowAsOf

variable {settled : Set TxnId} {c c' : List Version} {x : TxnId}

lemma rowAsOf_without (hx : x ∉ settled) (c : List Version) :
    rowAsOf settled (without x c) = rowAsOf settled c := by
  classical
  have hxmin : ∀ v : Version, (v.without x).xmin = v.xmin := by
    intro v
    rw [Version.without]
    split_ifs <;> rfl
  have hdata : ∀ v : Version, (v.without x).data = v.data := by
    intro v
    rw [Version.without]
    split_ifs <;> rfl
  have hxmax : ∀ v : Version, (∃ y ∈ settled, (v.without x).xmax = some y) ↔
      ∃ y ∈ settled, v.xmax = some y := by
    intro v
    rw [Version.without]
    split_ifs with hv
    · constructor
      · rintro ⟨y, _, h⟩
        cases h
      · rintro ⟨y, hy, h⟩
        exact absurd (Option.mem_unique hv h ▸ hy) hx
    · rfl
  have hfilter : (without x c).filter (fun v => decide (v.xmin ∈ settled)) =
      (c.filter fun v => decide (v.xmin ∈ settled)).map (Version.without x) := by
    rw [without, filter_map, filter_filter]
    refine congrArg _ (filter_congr fun v _ => ?_)
    by_cases hv : v.xmin ∈ settled
    · have hne : v.xmin ≠ x := fun h => hx (h ▸ hv)
      simp [hxmin, hv, hne]
    · simp [hxmin, hv]
  rw [rowAsOf, hfilter, getLast?_map, rowAsOf, Option.bind_map]
  refine congrArg _ (funext fun v => ?_)
  simp [hxmax, hdata]

lemma head_seen (hc : c.Pairwise (Covered settled)) :
    (seen settled c).head?.map Prod.snd = rowAsOf settled c := by
  classical
  have hseen : seen settled c = ((c.filter fun v => decide (v.xmin ∈ settled)).filter
      fun v => decide (¬ ∃ x ∈ settled, v.xmax = some x)).map fun v => (v.seq, v.data) := by
    rw [seen, filter_filter]
    refine congrArg _ (filter_congr fun v _ => ?_)
    rw [Bool.eq_iff_iff, Bool.and_eq_true, decide_eq_true_iff, decide_eq_true_iff,
      decide_eq_true_iff, Version.SeenBy]
    constructor
    · exact fun h => ⟨fun hx => hx.elim fun x hx => h.2 x hx.2 hx.1, h.1⟩
    · exact fun h => ⟨h.2, fun x heq hx => h.1 ⟨x, hx, heq⟩⟩
  have hpair := hc.filter fun v => decide (v.xmin ∈ settled)
  have hmem : ∀ v ∈ c.filter fun v => decide (v.xmin ∈ settled), v.xmin ∈ settled :=
    fun v hv => by simpa using (mem_filter.mp hv).2
  rw [hseen, rowAsOf]
  generalize c.filter (fun v => decide (v.xmin ∈ settled)) = d at hpair hmem ⊢
  rcases eq_nil_or_concat' d with rfl | ⟨e, v, rfl⟩
  · rfl
  · -- the versions before the last one were deleted by transactions that count as done
    have hnil : e.filter (fun v => decide (¬ ∃ x ∈ settled, v.xmax = some x)) = [] := by
      refine filter_eq_nil_iff.mpr fun u hu => ?_
      have := (pairwise_append.mp hpair).2.2 u hu v (by simp) (hmem v (by simp))
      simpa using this
    rw [filter_append, hnil, getLast?_concat, Option.bind_some]
    by_cases hv : ∃ x ∈ settled, v.xmax = some x <;> simp [hv]

lemma seen_insert {own : TxnId} (hc : ∀ v ∈ c, v.xmin ≠ own ∧ v.xmax ≠ some own) :
    seen (insert own settled) c = seen settled c := by
  classical
  rw [seen, seen]
  refine congrArg _ (filter_congr fun v hv => ?_)
  obtain ⟨hxmin, hxmax⟩ := hc v hv
  rw [Bool.eq_iff_iff, decide_eq_true_iff, decide_eq_true_iff, Version.SeenBy, Version.SeenBy]
  refine and_congr (by simp [hxmin]) (forall₂_congr fun x hx => ?_)
  have hne : x ≠ own := by
    rintro rfl
    exact hxmax hx
  simp [hne]

end RowAsOf

/-! ### After a snapshot -/

variable {snap : Snapshot}

namespace Lives

variable {w₀ w w' : Lives} {own : TxnId}

/-- What has happened to the identifiers since `w₀`. -/
structure Since (w₀ w : Lives) : Prop where
  nextId_le : w₀.nextId ≤ w.nextId
  opened : ∀ x ∈ w.opened, x ∈ w₀.opened ∨ w₀.nextId ≤ x
  committed : ∀ x ∈ w.committed, x ∈ w₀.committed ∨ x ∈ w₀.opened ∨ w₀.nextId ≤ x
  committed_mono : ∀ x ∈ w₀.committed, x ∈ w.committed

lemma Since.refl (w : Lives) : Since w w :=
  ⟨le_rfl, fun _ => .inl, fun _ => .inl, fun _ => id⟩

lemma Since.step (h : Since w₀ w) (hs : w.Step w') : Since w₀ w' := by
  cases hs with
  | begin =>
    refine ⟨h.nextId_le.trans (Nat.le_succ _), fun x hx => ?_, h.committed, h.committed_mono⟩
    rcases mem_append.mp hx with hx | hx
    · exact h.opened x hx
    · exact .inr (mem_singleton.mp hx ▸ h.nextId_le)
  | call c y hc hopen _ _ =>
    refine ⟨h.nextId_le, h.opened, fun x hx => ?_, fun x hx => ?_⟩
    · rcases World.committed_after hx with hx | rfl
      · exact h.committed x hx
      · obtain rfl := Option.some.inj hc
        exact .inr (h.opened _ hopen)
    · have := h.committed_mono x hx
      cases c <;> first
        | exact this
        | exact .inr this
  | close x order locks _ _ _ =>
    exact ⟨h.nextId_le, fun y hy => h.opened y (mem_of_mem_filter hy), h.committed,
      h.committed_mono⟩
  | lock => exact ⟨h.nextId_le, h.opened, h.committed, h.committed_mono⟩

def IsSnapshot (w : Lives) (own : TxnId) (snap : Snapshot) : Prop :=
  snap.own = own ∧ snap.xmax = w.nextId ∧ snap.active = w.opened.filter fun x => x != own

variable (h₀ : w₀.Sound)
include h₀

lemma isSettled_iff (h : w.Sound) (hsince : Since w₀ w)
    (hsnap : w₀.IsSnapshot own snap) {x : TxnId} (hx : w.inner.txns.get? x ≠ none) :
    snap.isSettled w.inner.status x = true ↔ x ∈ insert own w₀.done := by
  obtain ⟨rfl, hxmax, hactive⟩ := hsnap
  have hl := h.registry.ledger
  rw [Snapshot.isSettled_iff, hxmax, hactive, Set.mem_insert_iff]
  by_cases hown : x = snap.own
  · simp [hown]
  have hmem : x ∈ w₀.opened.filter (fun x => x != snap.own) ↔ x ∈ w₀.opened := by
    simp [mem_filter, hown]
  rw [hmem]
  refine or_congr_right ⟨?_, ?_⟩
  · rintro ⟨hlt, hclosed, hstatus⟩
    have hcom : x ∈ w.committed := by
      obtain ⟨st, hst⟩ := Option.ne_none_iff_exists'.mp hx
      rw [Inner.status, statusIn, hst] at hstatus
      exact hl.committed x st hst hstatus
    rcases hsince.committed x hcom with hold | hopen | hle
    · exact ⟨hold, hclosed⟩
    · exact absurd hopen hclosed
    · exact absurd hlt (not_lt.mpr hle)
  · rintro ⟨hcom, hclosed⟩
    exact ⟨h₀.committed_lt hcom, hclosed, hl.status_of_committed (hsince.committed_mono x hcom)⟩

lemma reads (h : w.Sound) (hsince : Since w₀ w)
    (hsnap : w₀.IsSnapshot own snap) : Reads snap (insert own w₀.done) w.inner := by
  intro T t r v ht hv
  obtain ⟨c, hc, hmem⟩ := hv
  have hnamed := h.owned.named T r c ⟨t, ht, hc⟩ v hmem
  rw [Snapshot.isVisible_iff, Version.SeenBy,
    isSettled_iff h₀ h hsince hsnap (hnamed v.xmin (.inl rfl))]
  refine and_congr_right fun _ => forall₂_congr fun x hx => ?_
  rw [← isSettled_iff h₀ h hsince hsnap (hnamed x (.inr hx)), Bool.not_eq_true]

lemma Since.notMem_done (h : Since w₀ w) {x : TxnId} (hx : x ∈ w.opened) : x ∉ w₀.done := by
  rintro ⟨hcom, hclosed⟩
  rcases h.opened x hx with hopen | hle
  · exact hclosed hopen
  · exact absurd (h₀.committed_lt hcom) (not_lt.mpr hle)

/-- What the transactions that were done have left. -/
structure Settled (w₀ w : Lives) : Prop where
  since : Since w₀ w
  covered : ∀ T r c, w.inner.Chain T r c → c.Pairwise (Covered w₀.done)
  rows : ∀ T r, rowAsOf w₀.done (w.inner.chainOf T r) = rowAsOf w₀.done (w₀.inner.chainOf T r)

lemma Settled.refl : Settled w₀ w₀ := by
  refine ⟨.refl w₀, fun T r c hc => (h₀.layered T r c hc).imp ?_, fun _ _ => rfl⟩
  rintro a b ⟨x, hx, rfl | hdone⟩ hb
  · exact ⟨b.xmin, hb, hx⟩
  · exact ⟨x, hdone, hx⟩

lemma Settled.step (h : w.Sound) (hset : Settled w₀ w) (hs : w.Step w') : Settled w₀ w' := by
  have hsince := hset.since.step hs
  cases hs with
  | begin | close x order locks _ _ _ | lock a locks _ _ _ =>
    exact ⟨hsince, hset.covered, hset.rows⟩
  | call c x hc hopen _ _ =>
    obtain ⟨hcat, hrows⟩ := h.site.sound
    have hx : x ∉ w₀.done := hset.since.notMem_done h₀ hopen
    refine ⟨hsince, fun T r c' hc' => ?_, fun T r => ?_⟩
    · cases c.chain_cases hcat hrows hc' with
      | trimmed hold htrim => exact htrim.pairwise covered_stamp (hset.covered T r _ hold)
      | inserted _ _ _ => exact pairwise_singleton _ _
      | deleted hold hxmax => exact pairwise_stamp_last covered_stamp _ (hset.covered T r _ hold)
      | updated hold hxmax hb _ =>
        obtain rfl := Option.some.inj hc
        rw [append_cons, pairwise_append]
        refine ⟨pairwise_stamp_last covered_stamp _ (hset.covered T r _ hold),
          pairwise_singleton _ _, fun v _ b' hb' hdone => ?_⟩
        obtain rfl := mem_singleton.mp hb'
        exact absurd (hb ▸ hdone) hx
    · have hothers : SameOthers x w.inner (c.after w.inner) :=
        Call.others_after h.owned hcat hrows hc
      calc rowAsOf w₀.done ((c.after w.inner).chainOf T r)
          = rowAsOf w₀.done (without x ((c.after w.inner).chainOf T r)) :=
            (rowAsOf_without hx _).symm
        _ = rowAsOf w₀.done (without x (w.inner.chainOf T r)) := by rw [hothers T r]
        _ = rowAsOf w₀.done (w.inner.chainOf T r) := rowAsOf_without hx _
        _ = rowAsOf w₀.done (w₀.inner.chainOf T r) := hset.rows T r

lemma Settled.of_leads (hl : w₀.Leads w) : Settled w₀ w := by
  induction hl with
  | refl => exact .refl h₀
  | tail hl hs ih => exact ih.step h₀ (Leads.sound h₀ hl) hs

/-- A row that `own` has not written is read as those that were done have left it. -/
lemma Settled.get (h : w.Sound) (hset : Settled w₀ w)
    (hsnap : w₀.IsSnapshot own snap) {T : TableId} {t : Table}
    (ht : w.inner.tables.get? T = some t) {r : RowId}
    (hrow : ∀ v ∈ t.chainOf r, v.xmin ≠ own ∧ v.xmax ≠ some own) :
    w.inner.get snap T r = .ok (rowAsOf w₀.done (t.chainOf r)) := by
  rw [(reads h₀ h hset.since hsnap).get ht r, seen_insert hrow, head_seen]
  rw [Table.chainOf]
  cases hc : t.rows.get? r with
  | none => exact .nil
  | some c => exact hset.covered T r c ⟨t, ht, hc⟩

end Lives

/-! ### Snapshots that are handed out -/

/-- An entry of the list was there, with its snapshot or without one, or was opened by the event. -/
inductive EntryStep (w : TxnSystem) (e : TxnEvent) (o' : OpenTxn) : Prop
  | kept (o : OpenTxn) (ho : o ∈ w.state.opened) (hid : o'.id = o.id)
      (hpinned : o'.pinned = o.pinned)
      (hnot : e = .statementSnapshot o.id → ¬ (o.pinned = none ∧ w.modeOf o = .txnSnapshot))
  | pinned (o : OpenTxn) (ho : o ∈ w.state.opened) (hid : o'.id = o.id) (hnone : o.pinned = none)
      (he : e = .statementSnapshot o.id) (hmode : w.modeOf o = .txnSnapshot)
      (hsnap : o'.pinned = some (w.state.snapshotFor o.id))
  | opened (hid : o'.id = w.state.nextId) (hnone : o'.pinned = none)

namespace TxnSystem

variable {w w' : TxnSystem} {o' : OpenTxn} {e : TxnEvent}

lemma entry_modify {id : TxnId} {f : OpenTxn → OpenTxn} (ho' : o' ∈ (w.state.modify id f).opened)
    (hf : ∀ o, (f o).id = o.id ∧ (f o).pinned = o.pinned)
    (hnot : ∀ o ∈ w.state.opened, e = .statementSnapshot o.id →
      ¬ (o.pinned = none ∧ w.modeOf o = .txnSnapshot)) : EntryStep w e o' := by
  obtain ⟨o, ho, rfl⟩ := mem_map.mp ho'
  split_ifs
  · exact .kept o ho (hf o).1 (hf o).2 (hnot o ho)
  · exact .kept o ho rfl rfl (hnot o ho)

lemma entry_statementSnapshot (hids : w.state.ids.Nodup) (txn : TxnId)
    (ho' : o' ∈ (w.state.statementSnapshot w.modeOf txn).2.opened) :
    EntryStep w (.statementSnapshot txn) o' := by
  -- an entry of the transaction is the one that is found
  have hfound : ∀ o₁ ∈ w.state.opened, o₁.id = txn → w.state.find txn = some o₁ := by
    intro o₁ ho₁ hid
    obtain ⟨o, ho⟩ := ManagerState.find_of_mem_ids (mem_map.mpr ⟨o₁, ho₁, hid⟩)
    rw [inj_on_of_nodup_map hids ho₁ (mem_of_find?_eq_some ho)
      (hid.trans (ManagerState.id_of_find ho).symm)]
    exact ho
  have hnot : ∀ {o₁ : OpenTxn}, o₁ ∈ w.state.opened →
      (∀ o, w.state.find txn = some o → ¬ (o.pinned = none ∧ w.modeOf o = .txnSnapshot)) →
      TxnEvent.statementSnapshot txn = .statementSnapshot o₁.id →
      ¬ (o₁.pinned = none ∧ w.modeOf o₁ = .txnSnapshot) := fun {o₁} ho₁ h he =>
    h o₁ (hfound o₁ ho₁ (TxnEvent.statementSnapshot.inj he).symm)
  rw [ManagerState.statementSnapshot] at ho'
  split at ho'
  · rename_i hfind
    exact .kept o' ho' rfl rfl (hnot ho' fun o ho => by rw [hfind] at ho; cases ho)
  rename_i o hfind
  split at ho'
  · rename_i snap hpinned
    refine .kept o' ho' rfl rfl (hnot ho' fun o₁ ho₁ hnone => ?_)
    cases hfind.symm.trans ho₁
    rw [hpinned] at hnone
    cases hnone.1
  rename_i hnone
  split_ifs at ho' with hmode
  · obtain ⟨o₁, ho₁, rfl⟩ := mem_map.mp ho'
    split_ifs with hid
    · obtain rfl : o = o₁ := Option.mem_unique hfind (hfound o₁ ho₁ hid)
      exact .pinned o ho₁ rfl hnone (by rw [hid]) hmode (by rw [hid])
    · exact .kept o₁ ho₁ rfl rfl fun he => absurd (TxnEvent.statementSnapshot.inj he).symm hid
  · refine entry_modify ho' (fun _ => ⟨rfl, rfl⟩) fun o₁ ho₁ => hnot ho₁ fun o₂ ho₂ h => ?_
    cases hfind.symm.trans ho₂
    exact hmode h.2

/-- What an event does to the entries. -/
theorem entry_cases (hids : w.state.ids.Nodup) (hs : w.event e = some w')
    (ho' : o' ∈ w'.state.opened) : EntryStep w e o' := by
  have hsame : (∀ x, e ≠ .statementSnapshot x) → o' ∈ w.state.opened → EntryStep w e o' :=
    fun he ho => .kept o' ho rfl rfl fun h => absurd h (he _)
  cases effect_of_event hs with
  | idle he => exact hsame he ho'
  | begin db isolation he =>
    rcases mem_snoc.mp ho' with ho' | rfl
    · exact hsame he ho'
    · exact .opened rfl rfl
  | snapshot x => exact entry_statementSnapshot hids x ho'
  | mark x o _ | reopen x order c _ => exact entry_modify ho' (fun _ => ⟨rfl, rfl⟩) nofun
  | finish c _ _ hclose | rollbackClose o _ hclose =>
    obtain ⟨locks, _, rfl⟩ := Option.map_eq_some_iff.mp hclose
    exact hsame nofun (mem_of_mem_eraseP ho')
  | call c he x _ _ f hf =>
    refine entry_modify ho' (fun o => ⟨(hf o).1, (hf o).2.2⟩) ?_
    rintro o _ rfl
    cases he
  | lock a he locks _ =>
    refine hsame ?_ ho'
    rintro x rfl
    cases he
  | _ => exact hsame nofun ho'

variable {s : Inner}

/-- The run that goes on from `w₀` reaches `w`. -/
abbrev Later (s : Inner) (w₀ w : TxnSystem) : Prop :=
  ((transactionManager s).after w₀).Reachable Locked w

/-- The snapshot was built for `own` at some point of the run. -/
def Built (s : Inner) (w : TxnSystem) (own : TxnId) (snap : Snapshot) : Prop :=
  ∃ w₀, (transactionManager s).Reachable Locked w₀ ∧ Later s w₀ w ∧
    snap = w₀.state.snapshotFor own

lemma built_of_pinned (hs : s.Prepared) (hw : (transactionManager s).Reachable Locked w)
    {o : OpenTxn} (ho : o ∈ w.state.opened) (hsnap : o.pinned = some snap) :
    Built s w o.id snap := by
  induction hw generalizing o with
  | start => cases ho
  | @next w₁ w₂ e hw₁ hok hexec ih =>
    have hlater : ∀ {w₀}, Later s w₀ w₁ → Later s w₀ w₂ := fun hl => hl.next hok hexec
    obtain ⟨w', hevent, rfl⟩ := Option.map_eq_some_iff.mp hexec
    cases entry_cases (reachable_sound hs hw₁).2.ids hevent ho with
    | kept o₁ ho₁ hid hpinned _ =>
      obtain ⟨w₀, hw₀, hl, heq⟩ := ih ho₁ (hpinned ▸ hsnap)
      exact ⟨w₀, hw₀, hlater hl, hid ▸ heq⟩
    | pinned o₁ ho₁ hid hnone he hmode hp =>
      rw [hp] at hsnap
      exact ⟨w₁, hw₁, hlater .start, hid ▸ (Option.some.inj hsnap).symm⟩
    | opened hid hnone =>
      cases hnone.symm.trans hsnap

lemma built_statementSnapshot (hs : s.Prepared) (hw : (transactionManager s).Reachable Locked w)
    (own : TxnId) : Built s w own (w.statementSnapshot own) := by
  have hnow : Built s w own (w.state.snapshotFor own) := ⟨w, hw, .start, rfl⟩
  rw [statementSnapshot, ManagerState.statementSnapshot]
  split
  · exact hnow
  rename_i o hfind
  split
  · rename_i snap hpinned
    exact ManagerState.id_of_find hfind ▸ built_of_pinned hs hw (mem_of_find?_eq_some hfind) hpinned
  · split_ifs <;> exact hnow

end TxnSystem

/-! ### Whole transactions -/

open TxnSystem in
/-- When updates and deletes are made under exclusive locks that are kept, every snapshot that is
handed out comes with a set of transactions that had committed and were closed: it sees their
versions and those of its own transaction and no others, it reads each row that its own transaction
has not written as they left it, and what they left stays the same for as long as it is used. -/
theorem snapshots_show_whole_transactions {s : Inner} (hs : s.Prepared) {w : TxnSystem}
    (hw : (transactionManager s).Reachable Locked w) (own : TxnId) :
    ∃ settled : Set TxnId, (∀ x ∈ settled, x ∈ w.history.committed ∧ x ∉ w.state.ids) ∧
      ∀ w', Later s w w' →
        Reads (w.statementSnapshot own) (insert own settled) w'.storage ∧
        (∀ T t r, w'.storage.tables.get? T = some t →
          (∀ v ∈ t.chainOf r, v.xmin ≠ own ∧ v.xmax ≠ some own) →
          w'.storage.get (w.statementSnapshot own) T r = .ok (rowAsOf settled (t.chainOf r))) ∧
        ∀ T r, rowAsOf settled (w'.storage.chainOf T r) =
          rowAsOf settled (w.storage.chainOf T r) := by
  obtain ⟨w₀, hw₀, hl, hsnap⟩ := built_statementSnapshot hs hw own
  have h₀ := reachable_sound hs hw₀
  obtain ⟨hleads, hcommitting⟩ := leads_of_reachable h₀ hl
  have hsettled := Lives.Settled.of_leads h₀.1 hleads
  have hbuilt : w₀.lives.IsSnapshot own (w.statementSnapshot own) := by
    rw [hsnap]
    exact ⟨rfl, rfl, rfl⟩
  refine ⟨w₀.lives.done, fun x hx => ⟨hsettled.since.committed_mono x hx.1, fun hopen => ?_⟩,
    fun w' hw' => ?_⟩
  · exact hsettled.since.notMem_done h₀.1 hopen hx
  · have hleads' := hleads.trans (leads_of_reachable ⟨hleads.sound h₀.1, hcommitting⟩ hw').1
    have hsettled' := Lives.Settled.of_leads h₀.1 hleads'
    have hsound' := Lives.Leads.sound h₀.1 hleads'
    refine ⟨Lives.reads h₀.1 hsound' hsettled'.since hbuilt, fun T t r ht hrow => ?_, fun T r => ?_⟩
    · exact hsettled'.get h₀.1 hsound' hbuilt ht hrow
    · exact (hsettled'.rows T r).trans (hsettled.rows T r).symm

/-! ### Runs of a few sessions -/

/-- A table of one column of integers. -/
def oneTable : Inner :=
  (Call.createTable 1 ⟨[⟨.int, true, none⟩], none⟩).after ((Call.createDatabase "d").after .empty)

lemma oneTable_prepared : oneTable.Prepared :=
  (Relation.ReflTransGen.single (.call (.createDatabase "d") nofun rfl)).tail
    (.call (.createTable 1 ⟨[⟨.int, true, none⟩], none⟩) nofun rfl)

def wholeCommit (txn : TxnId) (order : List LockResource) : List TxnEvent :=
  [.commitMark txn, .commitStorage txn false, .commitFinish txn order]

/-- The first transaction stores two rows. -/
def twoRows : List TxnEvent :=
  [.begin .readCommitted, .insert 1 1 [.i32 1], .insert 1 1 [.i32 10]] ++ wholeCommit 1 []

instance (w : Lives) (x : TxnId) (T : TableId) (r : RowId) : Decidable (w.Exclusive x T r) :=
  inferInstanceAs (Decidable (_ ∈ _))

instance (w : Lives) : (a : LockAction) → Decidable (w.Keeps a)
  | .unlock _ (.row ..) => inferInstanceAs (Decidable ¬ _)
  | .releaseAll .. => instDecidableFalse
  | .request .. | .wake .. | .unlock _ (.table _) => instDecidableTrue

instance (w : TxnSystem) (e : TxnEvent) : Decidable (w.Locked e) := by
  unfold TxnSystem.Locked
  split <;> infer_instance

/-- The second transaction replaces a row under its lock and commits, and the third one is open. -/
def lockedUpdate : List TxnEvent :=
  twoRows ++ [.begin .readCommitted, .begin .readCommitted, .lock 2 (.row 1 1) .X false,
    .update 2 1 1 [.i32 2]] ++ wholeCommit 2 [.row 1 1]

/-- The third transaction reads the row as the second one left it. -/
theorem lockedUpdate_is_shown : ∃ w : TxnSystem,
    (transactionManager oneTable).Reachable TxnSystem.Locked w ∧
    w.storage.get (w.statementSnapshot 3) 1 1 = .ok (some [.i32 2]) ∧
    ∃ settled : Set TxnId, Reads (w.statementSnapshot 3) (insert 3 settled) w.storage := by
  have hok : ∀ (w : TxnSystem) e, decide (w.Locked e) = true → w.Locked e :=
    fun _ _ => of_decide_eq_true
  obtain ⟨w, hw, hget⟩ := (transactionManager oneTable).exists_reachable
    (fun w e => decide (w.Locked e)) lockedUpdate
    (fun w => w.storage.get (w.statementSnapshot 3) 1 1 == .ok (some [.i32 2])) hok
    (by decide +kernel)
  obtain ⟨settled, _, hlater⟩ := snapshots_show_whole_transactions oneTable_prepared hw 3
  exact ⟨w, hw, by simpa using hget, settled, (hlater w .start).1⟩

/-- Before the second transaction is closed, the third one replaces both rows and is closed. -/
def replacedBeforeClosed : List TxnEvent :=
  twoRows ++ [.begin .readCommitted, .begin .readCommitted, .update 2 1 1 [.i32 2],
    .commitMark 2, .commitStorage 2 false, .update 3 1 1 [.i32 3], .update 3 1 2 [.i32 30]] ++
  wholeCommit 3 [] ++ [.begin .readCommitted]

/-- Without locks, a snapshot shows one write of a transaction and not another. -/
theorem a_snapshot_shows_half_a_transaction : ∃ w : TxnSystem,
    (transactionManager oneTable).Reachable Machine.Any w ∧
    w.storage.status 3 = .committed ∧
    w.storage.latestVersion 1 1 = .ok (some (3, [.i32 3])) ∧
    w.storage.latestVersion 1 2 = .ok (some (3, [.i32 30])) ∧
    w.storage.get (w.statementSnapshot 4) 1 1 = .ok (some [.i32 1]) ∧
    w.storage.get (w.statementSnapshot 4) 1 2 = .ok (some [.i32 30]) := by
  have hok : ∀ (w : TxnSystem) (e : TxnEvent), true = true → Machine.Any w e := fun _ _ _ => trivial
  obtain ⟨w, hw, hp⟩ := (transactionManager oneTable).exists_reachable
    (fun _ _ => true) replacedBeforeClosed
    (fun w => w.storage.status 3 == .committed &&
      w.storage.latestVersion 1 1 == .ok (some (3, [.i32 3])) &&
      w.storage.latestVersion 1 2 == .ok (some (3, [.i32 30])) &&
      w.storage.get (w.statementSnapshot 4) 1 1 == .ok (some [.i32 1]) &&
      w.storage.get (w.statementSnapshot 4) 1 2 == .ok (some [.i32 30]))
    hok (by decide +kernel)
  simp only [Bool.and_eq_true, beq_iff_eq] at hp
  exact ⟨w, hw, hp.1.1.1.1, hp.1.1.1.2, hp.1.1.2, hp.1.2, hp.2⟩

end VaubanDB
