import VaubanDB.Memory.Integrity
import VaubanDB.Memory.Protocol
import VaubanDB.Memory.Views

/-!
Snapshot isolation of the reads: what a snapshot sees does not depend on what the other transactions
do after it was taken.

The calls of another transaction keep the versions of everybody else (`Framed`), and a vacuum below
the oldest transaction of the snapshot sweeps versions it does not see; so the view of the snapshot
stays the same (`SameView`).  A seek also has to compare its range with the keys of the index, which
have the types of their columns.
-/

namespace VaubanDB

open MemoryStorage

/-- The call of another transaction than `own`, which redefines nothing, or a vacuum up to `xmin`.
-/
def Call.Foreign (own xmin : TxnId) : Call → Prop
  | .insert t .. | .update t .. | .delete t .. | .savepoint t | .rollbackTo t _ | .commit t
  | .rollback t => t ≠ own
  | .vacuum horizon => horizon ≤ xmin
  | .databases | .tables _ | .indexes _ | .get .. | .scan .. | .seek .. | .latestVersion ..
  | .checkpoint => True
  | .createDatabase _ | .dropDatabase _ | .createTable .. | .dropTable _ | .createIndex ..
  | .dropIndex _ => False

namespace World

variable {ok : Column → Value → Bool} {w₀ w : World} {own : TxnId}

lemma committed_of_status (h : Tracked ok w.site) {T : TableId} {t : Table}
    (ht : w.inner.tables.get? T = some t) {r : RowId} {v : Version} (hv : Stored t.rows r v)
    {x : TxnId} (hx : v.xmin = x ∨ v.xmax = some x) (hstatus : w.inner.status x = .committed) :
    x ∈ w.committed := by
  obtain ⟨m, hp⟩ := h.precise
  refine (hp.committed_or_inProgress h.registry.ledger ht hv hx).resolve_right fun hin => ?_
  cases hstatus.symm.trans hin

/-- A snapshot goes on seeing the versions of the transactions that were settled. -/
lemma reads (own : TxnId) (hord : w₀.Ordered)
    (hended : ∀ x ∈ w₀.committed, x ∈ w₀.site.history.ended)
    (hsince : Since w₀ w) (h : Tracked ok w.site) :
    Reads (w₀.manager.snapshotFor own) (w₀.settled own) w.inner := by
  intro T t r v ht hv
  have hiff : ∀ x, v.xmin = x ∨ v.xmax = some x →
      ((w₀.manager.snapshotFor own).isSettled w.inner.status x = true ↔ x ∈ w₀.settled own) :=
    fun x hx => ⟨mem_of_isSettled hsince (committed_of_status h ht hv hx),
      isSettled_of_mem hord hsince h.registry.ledger hended⟩
  rw [Snapshot.isVisible_iff, Version.SeenBy, hiff v.xmin (.inl rfl)]
  refine and_congr_right fun _ => forall₂_congr fun x hx => ?_
  rw [← hiff x (.inr hx), Bool.not_eq_true]

lemma xmin_le_nextId (hord : w₀.Ordered) :
    (w₀.manager.snapshotFor own).xmin ≤ w₀.manager.nextId := by
  rw [Manager.snapshotFor, Manager.oldestOpen]
  cases hmin : w₀.manager.opened.min? with
  | none => exact le_rfl
  | some y => exact (hord.opened_lt y (List.min?_mem hmin)).le

lemma not_seen_of_swept (hord : w₀.Ordered) (hsince : Since w₀ w) (h : Tracked ok w.site)
    {horizon : TxnId} (hhorizon : horizon ≤ (w₀.manager.snapshotFor own).xmin) {T : TableId}
    {t : Table} (ht : w.inner.tables.get? T = some t) {r : RowId} {v : Version}
    (hv : Stored t.rows r v) (hkeep : Table.keeps horizon w.inner.status v = false) :
    ¬ v.SeenBy (w₀.settled own) := by
  obtain ⟨m, hp⟩ := h.precise
  have hcreator := hp.creator_not_aborted h.registry.ledger ht hv
  obtain ⟨x, hx, hlt, hstatus⟩ : ∃ x, v.xmax = some x ∧ x < horizon ∧
      w.inner.status x = .committed := by
    cases hxmax : v.xmax with
    | none => simp [Table.keeps, Table.expired, Table.orphaned, hxmax, hcreator] at hkeep
    | some x =>
      simp [Table.keeps, Table.expired, Table.orphaned, hxmax, hcreator] at hkeep
      exact ⟨x, rfl, hkeep⟩
  rintro ⟨_, hnot⟩
  refine hnot x hx (.inr ?_)
  rcases hsince.committed x (committed_of_status h ht hv (.inr hx) hstatus) with hc | hopen | hle
  · exact hc
  · exact absurd hopen (Manager.not_opened_of_lt_xmin _ (hlt.trans_le hhorizon))
  · exact absurd (hlt.trans_le (hhorizon.trans (xmin_le_nextId hord))) (not_lt.mpr hle)

variable (hok : ∀ c v, ok c v = true → v.selfComparable = true)
include hok

lemma sameView_after (hord₀ : w₀.Ordered)
    (hended : ∀ x ∈ w₀.committed, x ∈ w₀.site.history.ended) (hsince : Since w₀ w)
    (hord : w.Ordered) (h : Tracked ok w.site) (c : Call)
    (hopen : ∀ t, c.txn? = some t → t ∈ w.manager.opened)
    (hc : c.Foreign own (w₀.manager.snapshotFor own).xmin) :
    SameView (w₀.settled own) w.inner (c.after w.inner) := by
  by_cases hread : c.isRead = true
  · rw [Call.after_of_isRead hread]
    exact .refl _ _
  · cases htxn : c.txn? with
    | some x =>
      have hne : x ≠ own := by cases c <;> cases htxn <;> exact hc
      exact .of_framed (notMem_settled hord₀ hended hsince (hopen x htxn) hne)
        (h.framed hok htxn (hord.opened_live x (hopen x htxn)))
    | none =>
      cases c <;> first
        | exact absurd rfl hread
        | exact hc.elim
        | contradiction
        | simp only [Call.after, Call.exec, Call.state_map]
      case vacuum horizon =>
        exact .of_swept (.vacuum w.inner horizon) fun T t r v ht hv hkeep =>
          not_seen_of_swept hord₀ hsince h hc ht hv hkeep

lemma sameView_of_leads {xmin : TxnId} (hxmin : xmin = (w₀.manager.snapshotFor own).xmin)
    (h₀ : w₀.Reachable fun s c => c.Keyed ok s)
    (h : w₀.Leads (fun s c => c.Keyed ok s ∧ c.Foreign own xmin) w) :
    Since w₀ w ∧ Tracked ok w.site ∧ SameView (w₀.settled own) w₀.inner w.inner := by
  have htracked : Tracked ok w₀.site := h₀.site.tracked hok fun _ _ hc => hc
  have hall : w.Ordered ∧ Since w₀ w ∧ Tracked ok w.site ∧
      SameView (w₀.settled own) w₀.inner w.inner := by
    refine h.induction (P := fun w => w.Ordered ∧ Since w₀ w ∧ Tracked ok w.site ∧
      SameView (w₀.settled own) w₀.inner w.inner)
      ⟨h₀.ordered, .refl w₀, htracked, .refl _ _⟩ ?_
    rintro w e ⟨hord, hsince, ht, hview⟩ he
    refine ⟨hord.after e he, hsince.after e he, ?_⟩
    cases e with
    | begin => exact ⟨ht, hview⟩
    | call c =>
      obtain ⟨hopen, hkeyed, hforeign⟩ := he
      exact ⟨ht.after hok c (fun t hc => hord.opened_live t (hopen t hc)) hkeyed,
        hview.trans (sameView_after hok h₀.ordered h₀.ended hsince hord ht c hopen
          (hxmin ▸ hforeign))⟩
  exact hall.2

end World

/-- Snapshot isolation: in the runs whose key values compare equal to themselves, the calls of
other transactions leave every answer of `get` and `scan` under a snapshot as it was, and every
answer of `seek` through an index whose keys have the types of their columns. -/
theorem snapshot_reads_are_stable {w w' : World} {own : TxnId}
    (hw : w.Reachable fun s c => c.Comparable s)
    (hw' : w.Leads (fun s c => c.Comparable s ∧
      c.Foreign own (w.manager.snapshotFor own).xmin) w') :
    (∀ T r, w'.inner.get (w.manager.snapshotFor own) T r =
      w.inner.get (w.manager.snapshotFor own) T r) ∧
    (∀ T, w'.inner.scan (w.manager.snapshotFor own) T =
      w.inner.scan (w.manager.snapshotFor own) T) ∧
    ∀ i (range : KeyRange) dir, range.Comparable →
      (∀ ix, w.inner.indexes.get? i = some ix → ix.Typed) →
      (∀ ix, w'.inner.indexes.get? i = some ix → ix.Typed) →
      w'.inner.seek (w.manager.snapshotFor own) i range dir =
        w.inner.seek (w.manager.snapshotFor own) i range dir := by
  have hok : ∀ (c : Column) (v : Value), v.selfComparable = true → v.selfComparable = true :=
    fun _ _ h => h
  have htracked : Tracked _ w.site := hw.site.tracked hok fun _ _ hc => hc
  obtain ⟨hsince, htracked', hview⟩ := World.sameView_of_leads hok rfl hw hw'
  have hreads := World.reads own hw.ordered hw.ended (.refl w) htracked
  have hreads' := World.reads own hw.ordered hw.ended hsince htracked'
  obtain ⟨m, hp⟩ := htracked.precise
  obtain ⟨m', hp'⟩ := htracked'.precise
  refine ⟨hview.get hreads hreads', hview.scan hreads hreads', ?_⟩
  intro i range dir hrange htyped htyped'
  exact hview.seek hreads hreads' htracked.catalog htracked.rows htracked'.rows
    (fun T t ix ht hi hix => ⟨hp.exact T t i ix ht hi hix, htyped ix hix⟩)
    (fun T t ix ht hi hix => ⟨hp'.exact T t i ix ht hi hix, htyped' ix hix⟩) hrange dir

/-! ### Runs of two sessions -/

/-- A table of one column with an index on it, and two open transactions. -/
def twoSessions (ty : SqlType) : World := World.initial.run
  [.call (.createDatabase "d"), .call (.createTable 1 ⟨[⟨ty, true, none⟩], none⟩),
    .call (.createIndex 1 ⟨[⟨0, false⟩], false, []⟩), .begin, .begin]

abbrev firstSnapshot (ty : SqlType) : Snapshot := (twoSessions ty).manager.snapshotFor 1

lemma twoSessions_reachable (ty : SqlType) :
    (twoSessions ty).Reachable fun s c => c.Comparable s := by
  refine World.Leads.run ⟨⟨nofun, trivial⟩, ⟨nofun, trivial⟩, ⟨nofun, ?_⟩, trivial, trivial,
    trivial⟩
  rintro t order ht _ r v ⟨c, hc, _⟩
  cases ht
  cases hc

/-- Two ways to make a seek fail: a string in a column of integers; a NaN whose rollback leaves the
entry. -/
theorem foreign_calls_can_change_a_seek :
    ((twoSessions .int).Reachable (fun _ _ => True) ∧
      (twoSessions .int).Leads (fun _ c => c.Foreign 1 (firstSnapshot .int).xmin)
        ((twoSessions .int).run [.call (.insert 2 1 [.string "a"])]) ∧
      (twoSessions .int).inner.seek (firstSnapshot .int) 1 (.point [.i32 5]) .forward = .ok [] ∧
      ((twoSessions .int).run [.call (.insert 2 1 [.string "a"])]).inner.seek
        (firstSnapshot .int) 1 (.point [.i32 5]) .forward =
          bug "compare: incompatible value families String and I32") ∧
    ((twoSessions .float).Reachable (fun _ _ => True) ∧
      (twoSessions .float).Leads (fun _ c => c.Foreign 1 (firstSnapshot .float).xmin)
        ((twoSessions .float).run [.call (.insert 2 1 [nan]), .call (.rollback 2)]) ∧
      (twoSessions .float).inner.seek (firstSnapshot .float) 1 .full .forward = .ok [] ∧
      ((twoSessions .float).run [.call (.insert 2 1 [nan]), .call (.rollback 2)]).inner.seek
        (firstSnapshot .float) 1 .full .forward =
          corruption "index 1 references version 1 of row 1, which does not exist") := by
  have hreach : ∀ ty, (twoSessions ty).Reachable fun _ _ => True := fun ty =>
    (twoSessions_reachable ty).mono fun _ _ _ => trivial
  have hne : (2 : TxnId) ≠ 1 := by decide
  refine ⟨⟨hreach .int, World.Leads.run ⟨⟨?_, hne⟩, trivial⟩, rfl, rfl⟩,
    hreach .float, World.Leads.run ⟨⟨?_, hne⟩, ⟨?_, hne⟩, trivial⟩, rfl, rfl⟩ <;>
  · rintro t ⟨⟩
    decide

lemma insertZero_leads : (twoSessions .float).Leads
    (fun s c => c.Comparable s ∧ c.Foreign 1 (firstSnapshot .float).xmin)
    ((twoSessions .float).run [.call (.insert 2 1 [.f64 0])]) := by
  refine World.Leads.run ⟨⟨?_, ?_, by simp [Call.Foreign]⟩, trivial⟩
  · rintro t ⟨⟩
    decide
  · rintro t i ix ht hi hix c hc v hv
    cases ht
    cases List.mem_singleton.mp hi
    cases hix
    cases List.mem_singleton.mp hc
    cases hv
    decide

/-- The insert of a zero is not seen through the index. -/
theorem seek_is_stable_under_an_insert :
    ((twoSessions .float).run [.call (.insert 2 1 [.f64 0])]).inner.seek
        (firstSnapshot .float) 1 (.point [.f64 0]) .forward =
      (twoSessions .float).inner.seek (firstSnapshot .float) 1 (.point [.f64 0]) .forward := by
  refine (snapshot_reads_are_stable (twoSessions_reachable .float) insertZero_leads).2.2
    1 (.point [.f64 0]) .forward ?_ ?_ ?_
  · intro p hp v hv
    cases List.mem_singleton.mp hp
    cases List.mem_singleton.mp hv
    decide
  · rintro ix h e he
    cases h
    cases he
  · rintro ix h e he
    cases h
    cases List.mem_singleton.mp he
    intro i c v hc hv
    cases i with
    | zero =>
      cases hc
      cases hv
      decide
    | succ i => cases hv

end VaubanDB
