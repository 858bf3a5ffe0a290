import VaubanDB.Library.Machine
import VaubanDB.Memory.Isolation

/-!
A snapshot sees at most one row per key of a unique index.

The check of an insert looks at the live versions of the key.  Of two rows that ever held one
key, the first was deleted before the second was written, by a transaction that has committed or
by the very writer of the second (`Before`, kept along the runs by `Precise`); so whoever sees
the second does not see the first.

This needs a snapshot that counts the committed transactions as done.  The manager
(`vauban-txn/src/manager.rs`) takes a transaction off its list in a later section than the commit
of the storage, and a snapshot taken in between lists it as active: it can see the row such a
transaction deleted beside the one another transaction has inserted since.
-/

namespace VaubanDB

open MemoryStorage World

lemma not_seen_of_before {committed settled : Set TxnId} {m : Moments} {T : TableId}
    {r r' : RowId} {a b : Version} (h : Before committed m T r a r' b)
    (hcommitted : ∀ x ∈ committed, x ∈ settled) (ha : a.SeenBy settled) : ¬ b.SeenBy settled := by
  rintro ⟨hb, _⟩
  rcases h with ⟨x, hx, hxmax⟩ | ⟨hxmax, _⟩
  · exact ha.2 x hxmax (hcommitted x hx)
  · exact ha.2 b.xmin hxmax hb

/-- In the runs whose key values compare equal to themselves, two rows that a snapshot of the
protocol sees with equal keys of a unique index are one row. -/
lemma World.one_row_per_key {w : World} {own : TxnId}
    (hw : w.Reachable fun s c => c.Comparable s) {T : TableId} {t : Table} {i : IndexId}
    {ix : Index} (ht : w.inner.tables.get? T = some t) (hi : i ∈ t.indexes.keys)
    (hix : w.inner.indexes.get? i = some ix) (hunique : ix.shape.unique = true)
    {r r' : RowId} {d d' : Row} {k k' : List Value}
    (hr : w.inner.get (w.manager.snapshotFor own) T r = .ok (some d))
    (hr' : w.inner.get (w.manager.snapshotFor own) T r' = .ok (some d'))
    (hk : ix.order.extract d = .ok k) (hk' : ix.order.extract d' = .ok k')
    (heq : ix.order.comparePrefix k k' = .ok .eq) : r = r' := by
  have htracked : Tracked _ w.site := hw.site.tracked (fun _ _ h => h) fun _ _ hc => hc
  have hreads := reads own hw.ordered hw.ended (.refl w) htracked
  obtain ⟨m, hp⟩ := htracked.precise
  obtain ⟨a, ha, hvis, rfl⟩ := exists_visible_of_get ht hr
  obtain ⟨b, hb, hvis', rfl⟩ := exists_visible_of_get ht hr'
  have hseen := (hreads T t r a ht ha).mp hvis
  have hseen' := (hreads T t r' b ht hb).mp hvis'
  have hcommitted : ∀ x ∈ w.committed, x ∈ w.settled own := fun x hx => .inr hx
  by_contra hne
  rcases hp.apart T t i ix ht hi hix hunique r r' a b k k' hne ha hb hk hk' heq with h | h
  · exact not_seen_of_before h hcommitted hseen hseen'
  · exact not_seen_of_before h hcommitted hseen' hseen

/-! ### The list of the manager -/

/-- The storage and the list of the manager.  A commit marks its entry as ending, and removes it in
a section of its own, once the storage has answered. -/
structure Listing where
  site : Site
  manager : Manager
  ending : List TxnId

/-- What happens under the manager. -/
inductive ListEvent where
  | begin
  | call (c : Call)
  /-- The last section of a commit. -/
  | close (t : TxnId)

namespace Listing

def initial : Listing := ⟨.initial, .initial, []⟩

/-- A call of the storage, made by an open transaction.  A rollback holds the lock of the list
across the call, a commit does not. -/
def afterCall (v : Listing) (c : Call) : Listing :=
  match c with
  | .commit t => { v with site := v.site.after c, ending := t :: v.ending }
  | .rollback t => { v with site := v.site.after c, manager := v.manager.close t }
  | c => { v with site := v.site.after c }

/-- What an event makes of the storage and of the list; `none` when it cannot happen. -/
def exec (v : Listing) : ListEvent → Option Listing
  | .begin => some { v with manager := v.manager.begin }
  | .call c =>
    if c.txn?.all fun t => decide (t ∈ v.manager.opened ∧ t ∉ v.ending) then some (v.afterCall c)
    else none
  | .close t =>
    if t ∈ v.ending then
      some { v with manager := v.manager.close t, ending := v.ending.filter fun x => x != t }
    else none

def machine : Machine Listing ListEvent := ⟨initial, exec⟩

/-- The calls of the storage meet a condition. -/
def Calls (allowed : Inner → Call → Prop) (v : Listing) (e : ListEvent) : Prop :=
  ∀ c, e = .call c → allowed v.site.inner c

/-- The protocol of the storage: a transaction leaves the list with the call that ends it. -/
def world (v : Listing) : World :=
  ⟨v.site, { v.manager with opened := v.manager.opened.filter fun t => decide (t ∉ v.ending) }⟩

variable {allowed : Inner → Call → Prop} {v v' : Listing}

lemma world_afterCall (v : Listing) (c : Call) :
    (v.afterCall c).world = v.world.after (.call c) := by
  cases c with
  | commit t =>
    simp only [world, afterCall, World.after, Manager.after, Manager.close, List.filter_filter]
    congr 3
    funext x
    by_cases hx : x = t <;> simp [hx]
  | rollback t =>
    simp only [world, afterCall, World.after, Manager.after, Manager.close]
    rw [List.filter_comm]
    rfl
  | _ => rfl

/-- The list without the ending transactions is one of the protocol. -/
lemma world_of_reachable (h : machine.Reachable (Calls allowed) v) :
    v.world.Reachable allowed ∧ ∀ t ∈ v.ending, t ∈ v.site.history.ended := by
  refine h.invariant (P := fun v => v.world.Reachable allowed ∧ ∀ t ∈ v.ending,
    t ∈ v.site.history.ended) ⟨.refl, nofun⟩ fun v e v' hv he hs => ?_
  obtain ⟨hreach, hended⟩ := hv
  cases e with
  | begin =>
    cases hs
    refine ⟨?_, hended⟩
    have hnew : v.manager.nextId ∉ v.ending := fun hmem =>
      absurd (hreach.ordered.ended_lt _ (hended _ hmem)) (lt_irrefl v.manager.nextId)
    have heq : ({ v with manager := v.manager.begin } : Listing).world = v.world.after .begin := by
      simp [world, World.after, Manager.begin, List.filter_append, hnew]
    exact heq ▸ hreach.tail (.event .begin trivial)
  | call c =>
    obtain ⟨hopen, hs⟩ := Option.ite_none_right_eq_some.mp hs
    cases hs
    have hmay : v.world.May allowed (.call c) := by
      refine ⟨fun t ht => ?_, he c rfl⟩
      rw [ht, Option.all_some, decide_eq_true_eq] at hopen
      exact List.mem_filter.mpr ⟨hopen.1, decide_eq_true hopen.2⟩
    refine ⟨world_afterCall v c ▸ hreach.tail (.event _ hmay), ?_⟩
    cases c with
    | commit t => exact List.forall_mem_cons.mpr ⟨.inl rfl, fun x hx => .inr (hended x hx)⟩
    | rollback t => exact fun x hx => .inr (hended x hx)
    | _ => exact hended
  | close t =>
    obtain ⟨hmem, hs⟩ := Option.ite_none_right_eq_some.mp hs
    cases hs
    refine ⟨?_, fun x hx => hended x (List.mem_of_mem_filter hx)⟩
    have heq : ({ v with
        manager := v.manager.close t
        ending := v.ending.filter fun x => x != t } : Listing).world = v.world := by
      simp only [world, Manager.close, List.filter_filter]
      congr 3
      funext x
      by_cases hx : x = t <;> simp [hx, hmem]
    exact heq ▸ hreach

end Listing

/-- In the runs whose key values compare equal to themselves, a snapshot taken while no commit is
between the storage and the list sees at most one row per key of a unique index. -/
theorem unique_index_shows_one_row_per_key {v : Listing} {own : TxnId}
    (hv : Listing.machine.Reachable (Listing.Calls fun s c => c.Comparable s) v)
    (hending : v.ending = []) {T : TableId} {t : Table} {i : IndexId} {ix : Index}
    (ht : v.site.inner.tables.get? T = some t) (hi : i ∈ t.indexes.keys)
    (hix : v.site.inner.indexes.get? i = some ix) (hunique : ix.shape.unique = true)
    {r r' : RowId} {d d' : Row} {k k' : List Value}
    (hr : v.site.inner.get (v.manager.snapshotFor own) T r = .ok (some d))
    (hr' : v.site.inner.get (v.manager.snapshotFor own) T r' = .ok (some d'))
    (hk : ix.order.extract d = .ok k) (hk' : ix.order.extract d' = .ok k')
    (heq : ix.order.comparePrefix k k' = .ok .eq) : r = r' := by
  have hworld : v.world = ⟨v.site, v.manager⟩ := by
    simp [Listing.world, hending]
  have hreach := (Listing.world_of_reachable hv).1
  rw [hworld] at hreach
  exact World.one_row_per_key hreach ht hi hix hunique hr hr' hk hk' heq

/-- A table of integers with a unique index. -/
def uniqueTable : List ListEvent :=
  [.call (.createDatabase "d"), .call (.createTable 1 ⟨[⟨.int, true, none⟩], none⟩),
    .call (.createIndex 1 ⟨[⟨0, false⟩], true, []⟩)]

/-- Two rows are committed; a second transaction deletes the first of them, a third one inserts its
key again, commits and leaves the list while the second has not left it. -/
def reinsertedSeven : List ListEvent :=
  uniqueTable ++ [.begin, .call (.insert 1 1 [.i32 7]), .call (.insert 1 1 [.i32 8]),
    .call (.commit 1), .close 1, .begin, .call (.delete 2 1 1), .call (.commit 2), .begin,
    .call (.insert 3 1 [.i32 7]), .call (.commit 3), .close 3]

/-- The test of the condition on the calls. -/
def Listing.comparable (v : Listing) : ListEvent → Bool
  | .call c => decide (c.Comparable v.site.inner)
  | _ => true

lemma Listing.calls_of_comparable (v : Listing) (e : ListEvent) (h : v.comparable e = true) :
    Calls (fun s c => c.Comparable s) v e := by
  rintro c rfl
  exact of_decide_eq_true h

/-- Once the second transaction is off the list, the row the third has inserted is the only one a
snapshot sees with its key. -/
theorem reinserted_seven_is_one_row : ∃ v : Listing,
    v.site.inner.get (v.manager.snapshotFor 4) 1 1 = .ok none ∧
    v.site.inner.get (v.manager.snapshotFor 4) 1 2 = .ok (some [.i32 8]) ∧
    v.site.inner.get (v.manager.snapshotFor 4) 1 3 = .ok (some [.i32 7]) ∧
    ∀ r, v.site.inner.get (v.manager.snapshotFor 4) 1 r = .ok (some [.i32 7]) → r = 3 := by
  obtain ⟨v, hv, hp⟩ := Listing.machine.exists_reachable Listing.comparable
    (reinsertedSeven ++ [.close 2])
    (fun v => decide (v.ending = [] ∧ (v.site.inner.tables.get? 1).any (1 ∈ ·.indexes.keys) ∧
      (v.site.inner.indexes.get? 1).map (fun ix => (ix.shape.unique, ix.order)) =
        some (true, ⟨[⟨0, false, .default, .int⟩]⟩) ∧
      v.site.inner.get (v.manager.snapshotFor 4) 1 1 = .ok none ∧
      v.site.inner.get (v.manager.snapshotFor 4) 1 2 = .ok (some [.i32 8]) ∧
      v.site.inner.get (v.manager.snapshotFor 4) 1 3 = .ok (some [.i32 7])))
    Listing.calls_of_comparable (by decide +kernel)
  obtain ⟨hending, htable, hindex, h₁, h₂, h₃⟩ := of_decide_eq_true hp
  obtain ⟨t, ht, hi⟩ := (Option.any_eq_true _ _).mp htable
  obtain ⟨ix, hix, horder⟩ := Option.map_eq_some_iff.mp hindex
  obtain ⟨hunique, horder⟩ := Prod.mk.inj horder
  have hkey : ix.order.extract [.i32 7] = .ok [.i32 7] := by rw [horder]; decide +kernel
  refine ⟨v, h₁, h₂, h₃, fun r hr => ?_⟩
  exact unique_index_shows_one_row_per_key hv hending ht (of_decide_eq_true hi) hix hunique hr h₃
    hkey hkey (by rw [horder]; decide +kernel)

/-- Before that, a snapshot sees the deleted row beside the new one. -/
theorem ending_deleter_admits_a_duplicate : ∃ v : Listing,
    Listing.machine.Reachable (Listing.Calls fun s c => c.Comparable s) v ∧ v.ending = [2] ∧
    v.site.inner.get (v.manager.snapshotFor 4) 1 1 = .ok (some [.i32 7]) ∧
    v.site.inner.get (v.manager.snapshotFor 4) 1 3 = .ok (some [.i32 7]) := by
  obtain ⟨v, hv, hp⟩ := Listing.machine.exists_reachable Listing.comparable reinsertedSeven
    (fun v => decide (v.ending = [2] ∧
      v.site.inner.get (v.manager.snapshotFor 4) 1 1 = .ok (some [.i32 7]) ∧
      v.site.inner.get (v.manager.snapshotFor 4) 1 3 = .ok (some [.i32 7])))
    Listing.calls_of_comparable (by decide +kernel)
  exact ⟨v, hv, of_decide_eq_true hp⟩

/-! ### A rollback that fails half way -/

/-- An index on a float and a unique one on an integer.  A row with the integer `7` is committed; a
second transaction deletes it, inserts a row with `v` and rolls back; a third one inserts `7` again.
-/
def reinsertedKey (v : Value) : List ListEvent :=
  [.call (.createDatabase "d"),
    .call (.createTable 1 ⟨[⟨.float, true, none⟩, ⟨.int, true, none⟩], none⟩),
    .call (.createIndex 1 ⟨[⟨0, false⟩], false, []⟩),
    .call (.createIndex 1 ⟨[⟨1, false⟩], true, []⟩),
    .begin, .call (.insert 1 1 [.null, .i32 7]), .call (.commit 1), .close 1,
    .begin, .call (.delete 2 1 1), .call (.insert 2 1 [v, .i32 8]), .call (.rollback 2),
    .begin, .call (.insert 3 1 [.null, .i32 7]), .call (.commit 3), .close 3]

/-- With a NaN, the rollback stops before it restores the deleted row, and both rows are seen. -/
theorem nan_rollback_admits_a_duplicate : ∃ v : Listing,
    Listing.machine.Reachable (Listing.Calls fun _ _ => True) v ∧ v.ending = [] ∧
    (v.site.inner.indexes.get? 2).map (fun ix => (ix.table, ix.shape)) =
      some (1, ⟨[⟨1, false⟩], true, []⟩) ∧
    v.site.inner.get (v.manager.snapshotFor 4) 1 1 = .ok (some [.null, .i32 7]) ∧
    v.site.inner.get (v.manager.snapshotFor 4) 1 3 = .ok (some [.null, .i32 7]) := by
  have hall : ∀ v e, true = true → Listing.Calls (fun _ _ => True) v e := fun _ _ _ _ _ => trivial
  obtain ⟨v, hv, hp⟩ := Listing.machine.exists_reachable (fun _ _ => true) (reinsertedKey nan)
    (fun v => decide (v.ending = [] ∧
      (v.site.inner.indexes.get? 2).map (fun ix => (ix.table, ix.shape)) =
        some (1, ⟨[⟨1, false⟩], true, []⟩) ∧
      v.site.inner.get (v.manager.snapshotFor 4) 1 1 = .ok (some [.null, .i32 7]) ∧
      v.site.inner.get (v.manager.snapshotFor 4) 1 3 = .ok (some [.null, .i32 7])))
    hall (by decide +kernel)
  exact ⟨v, hv, of_decide_eq_true hp⟩

end VaubanDB
