import VaubanDB.Library.CycleSearch
import VaubanDB.Txn.LockSafety

/-!
The deadlock monitor (`vauban-txn/src/deadlock.rs`): the graph of the waits, the search for a
cycle and the choice of a victim.

The monitor reads the queues and the holders of the lock table as two lists, builds the edges from
each waiter to the transactions that block it, and looks for a cycle from the transaction that is
about to park.  It answers that transaction only when it is the victim of the cycle it finds.
-/

namespace VaubanDB

open List

/-! ### The two lists the monitor reads -/

/-- A line of such a list: a transaction, a resource and the mode it holds or asks for. -/
abbrev LockLine := TxnId × LockResource × LockMode

namespace LockTable

variable (t : LockTable)

/-- Everything held, resource by resource. -/
def holders : List LockLine :=
  t.entries.entries.flatMap fun p => p.2.holders.map fun h => (h.txn, p.1, h.mode)

/-- Everything queued, resource by resource, each queue in grant order. -/
def waiters : List LockLine :=
  t.entries.entries.flatMap fun p => p.2.queue.map fun w => (w.txn, p.1, w.mode)

end LockTable

/-! ### The graph -/

/-- The wait-for graph: its edges, in the order they were found. -/
structure WaitGraph where
  edges : List (TxnId × TxnId)
  deriving DecidableEq

/-- The edges of one waiter: to the holders that refuse it, then to the candidates ahead of it. -/
def waiterEdges (holders ahead : List LockLine) : LockLine → List (TxnId × TxnId)
  | (waiter, resource, mode) =>
    ((holders.filter fun h => h.2.1 = resource ∧ h.1 ≠ waiter ∧ ¬ mode.compatibleWith h.2.2).map
      fun h => (waiter, h.1)) ++
    ((ahead.filter fun a => a.2.1 = resource ∧ a.1 ≠ waiter).map fun a => (waiter, a.1))

/-- The edges of the waiters of a list, `ahead` being those before it. -/
def waitEdges (holders : List LockLine) : List LockLine → List LockLine → List (TxnId × TxnId)
  | _, [] => []
  | ahead, w :: ws => waiterEdges holders ahead w ++ waitEdges holders (ahead ++ [w]) ws

def waitForGraph (waiters holders : List LockLine) : WaitGraph := ⟨waitEdges holders [] waiters⟩

namespace WaitGraph

variable (g : WaitGraph)

/-- The transactions a transaction waits for, sorted and without duplicates. -/
def successors (txn : TxnId) : List TxnId :=
  (((g.edges.filter fun e => e.1 = txn).map Prod.snd).insertionSort (· ≤ ·)).dedup

/-- The transactions of the first cycle a depth-first walk from `start` meets. -/
def cycleFrom (start : TxnId) : Option (List TxnId) :=
  CycleSearch.search g.successors (3 * g.edges.length + 2) start

end WaitGraph

/-! ### The monitor -/

def priorityNormal : ℤ := 0

/-- The lowest and the highest priority. -/
def priorityMin : ℤ := -10

@[inherit_doc priorityMin]
def priorityMax : ℤ := 10

/-- The priorities of the transactions that asked for one. -/
structure DeadlockMonitor where
  priorities : OrderedMap TxnId ℤ

def writesHeld (txn : TxnId) (holders : List LockLine) : ℕ :=
  holders.countP fun h => h.1 = txn ∧ (h.2.2 = .X ∨ h.2.2 = .U ∨ h.2.2 = .IX)

namespace DeadlockMonitor

variable (m : DeadlockMonitor)

/-- Keeps the priority of a transaction, clamped to the range. -/
def setPriority (txn : TxnId) (priority : ℤ) : DeadlockMonitor :=
  ⟨m.priorities.insert txn (max priorityMin (min priorityMax priority))⟩

def priority (txn : TxnId) : ℤ := (m.priorities.get? txn).getD priorityNormal

/-- `a` gives way before `b`: the lowest priority, the cheapest rollback, the youngest. -/
def givesWayBefore (holders : List LockLine) (a b : TxnId) : Bool :=
  decide (m.priority a < m.priority b) ||
    (decide (m.priority a = m.priority b) &&
      (decide (writesHeld a holders < writesHeld b holders) ||
        (decide (writesHeld a holders = writesHeld b holders) && decide (b < a))))

/-- The transaction of a cycle that gives way: the first one no other gives way before. -/
def victim (cycle : List TxnId) (holders : List LockLine) : Option TxnId :=
  match cycle with
  | [] => none
  | txn :: txns =>
    some (txns.foldl (fun best t => if m.givesWayBefore holders t best then t else best) txn)

/-- The transaction to roll back, when it is `txn`, which is about to wait. -/
def detect (waiters holders : List LockLine) (txn : TxnId) : Option TxnId := do
  let cycle ← (waitForGraph waiters holders).cycleFrom txn
  let victim ← m.victim cycle holders
  if victim = txn then some victim else none

end DeadlockMonitor

/-! ### What the edges mean -/

section Lines

variable {β : Type} (f : LockEntry → List β) (line : LockResource → β → LockLine)

lemma filter_lines_of_ne (hline : ∀ r b, (line r b).2.1 = r) {r : LockResource}
    {es : List (LockResource × LockEntry)} (h : ∀ p ∈ es, p.1 ≠ r) :
    (es.flatMap fun p => (f p.2).map (line p.1)).filter (fun l => l.2.1 = r) = [] := by
  rw [filter_eq_nil_iff]
  intro l hl
  obtain ⟨p, hp, hl⟩ := mem_flatMap.mp hl
  obtain ⟨b, -, rfl⟩ := mem_map.mp hl
  simpa [hline] using h p hp

lemma filter_lines (hline : ∀ r b, (line r b).2.1 = r) (hempty : f .empty = []) (t : LockTable)
    (r : LockResource) :
    (t.entries.entries.flatMap fun p => (f p.2).map (line p.1)).filter (fun l => l.2.1 = r) =
      (f (t.entry r)).map (line r) := by
  rw [LockTable.entry]
  cases he : t.entries.get? r with
  | none =>
    rw [filter_lines_of_ne f line hline]
    · simp [hempty]
    · rintro ⟨r', e⟩ hp rfl
      rw [OrderedMap.get?_eq_some_iff.mpr hp] at he
      cases he
  | some e =>
    obtain ⟨before, after, hsplit⟩ := append_of_mem (OrderedMap.get?_eq_some_iff.mp he)
    have hsorted := t.entries.sorted
    rw [hsplit, pairwise_append, pairwise_cons] at hsorted
    have hkeep : ((f e).map (line r)).filter (fun l => l.2.1 = r) = (f e).map (line r) := by
      rw [filter_eq_self]
      intro l hl
      obtain ⟨b, -, rfl⟩ := mem_map.mp hl
      simpa using hline r b
    rw [hsplit, flatMap_append, flatMap_cons, filter_append, filter_append,
      filter_lines_of_ne f line hline fun p hp => (hsorted.2.2 p hp (r, e) (by simp)).ne,
      filter_lines_of_ne f line hline fun p hp => (hsorted.2.1.1 p hp).ne', hkeep]
    simp

end Lines

variable {l : LockLine}

namespace LockTable

variable {t : LockTable} {r : LockResource}

lemma filter_waiters (t : LockTable) (r : LockResource) :
    t.waiters.filter (fun l => l.2.1 = r) = (t.entry r).queue.map fun w => (w.txn, r, w.mode) :=
  filter_lines LockEntry.queue (fun r w => (w.txn, r, w.mode)) (fun _ _ => rfl) rfl t r

lemma mem_holders : l ∈ t.holders ↔ ∃ h ∈ (t.entry l.2.1).holders, (h.txn, l.2.1, h.mode) = l := by
  have hfilter := filter_lines LockEntry.holders (fun r h => (h.txn, r, h.mode)) (fun _ _ => rfl)
    rfl t l.2.1
  have hmem : l ∈ t.holders ↔ l ∈ t.holders.filter fun l' => l'.2.1 = l.2.1 := by simp
  rw [hmem, show t.holders.filter (fun l' => l'.2.1 = l.2.1) = _ from hfilter, mem_map]

def Waiting (t : LockTable) (txn : TxnId) : Prop := ∃ r, ∃ x ∈ (t.entry r).queue, x.txn = txn

/-- The candidate `x` is refused by a lock of `b`, or stands behind a candidate of `b`. -/
def HeldBack (e : LockEntry) (x : Waiter) (b : TxnId) : Prop :=
  (∃ h ∈ e.holders, h.txn = b ∧ x.mode.compatibleWith h.mode = false) ∨
    ∃ y, [y, x].Sublist e.queue ∧ y.txn = b

def Blocks (t : LockTable) (a b : TxnId) : Prop :=
  b ≠ a ∧ ∃ r, ∃ x ∈ (t.entry r).queue, x.txn = a ∧ HeldBack (t.entry r) x b

end LockTable

variable {holders ahead : List LockLine} {b a : TxnId}

lemma mem_waitEdges {lines : List LockLine} : (a, b) ∈ waitEdges holders ahead lines ↔
      ∃ before l after, lines = before ++ l :: after ∧
        (a, b) ∈ waiterEdges holders (ahead ++ before) l := by
  induction lines generalizing ahead with
  | nil => simp [waitEdges]
  | cons l lines ih =>
    rw [waitEdges, mem_append, ih]
    constructor
    · rintro (h | ⟨before, l', after, rfl, h⟩)
      · exact ⟨[], l, lines, rfl, by simpa using h⟩
      · exact ⟨l :: before, l', after, rfl, by simpa using h⟩
    · rintro ⟨before, l', after, heq, h⟩
      cases before with
      | nil =>
        obtain ⟨rfl, rfl⟩ := cons.inj heq
        exact .inl (by simpa using h)
      | cons l'' before =>
        obtain ⟨rfl, rfl⟩ := cons.inj heq
        exact .inr ⟨before, l', after, rfl, by simpa using h⟩

lemma mem_waiterEdges : (a, b) ∈ waiterEdges holders ahead l ↔ l.1 = a ∧ b ≠ a ∧
      ((∃ h ∈ holders, h.2.1 = l.2.1 ∧ h.1 = b ∧ l.2.2.compatibleWith h.2.2 = false) ∨
        ∃ y ∈ ahead, y.2.1 = l.2.1 ∧ y.1 = b) := by
  obtain ⟨txn, r, m⟩ := l
  simp only [waiterEdges, mem_append, mem_map, mem_filter, Prod.mk.injEq,
    decide_eq_true_eq, Bool.not_eq_true]
  constructor
  · rintro (⟨h, ⟨hh, hr, hne, hm⟩, rfl, rfl⟩ | ⟨y, ⟨hy, hr, hne⟩, rfl, rfl⟩)
    · exact ⟨rfl, hne, .inl ⟨h, hh, hr, rfl, hm⟩⟩
    · exact ⟨rfl, hne, .inr ⟨y, hy, hr, rfl⟩⟩
  · rintro ⟨rfl, hne, ⟨h, hh, hr, rfl, hm⟩ | ⟨y, hy, hr, rfl⟩⟩
    · exact .inl ⟨h, ⟨hh, hr, hne, hm⟩, rfl, rfl⟩
    · exact .inr ⟨y, ⟨hy, hr, hne⟩, rfl, rfl⟩

/-- The lines ahead of a line in the queue of its resource are the candidates ahead of its own. -/
lemma LockTable.split_waiters {t : LockTable} {before after : List LockLine}
    (h : t.waiters = before ++ l :: after) :
    ∃ es x fs, (t.entry l.2.1).queue = es ++ x :: fs ∧ (x.txn, l.2.1, x.mode) = l ∧
      ∀ b, (∃ y ∈ before, y.2.1 = l.2.1 ∧ y.1 = b) ↔ ∃ y ∈ es, y.txn = b := by
  have hfilter := t.filter_waiters l.2.1
  rw [h, filter_append, filter_cons_of_pos (by simp)] at hfilter
  obtain ⟨es, rest, hqueue, hes, hrest⟩ := map_eq_append_iff.mp hfilter.symm
  obtain ⟨x, fs, rfl, hx, -⟩ := map_eq_cons_iff.mp hrest
  refine ⟨es, x, fs, hqueue, hx, fun b => ⟨?_, ?_⟩⟩
  · rintro ⟨y, hy, hr, rfl⟩
    have hmem : y ∈ es.map fun w => (w.txn, l.2.1, w.mode) := by
      rw [hes]
      exact mem_filter.mpr ⟨hy, by simpa using hr⟩
    obtain ⟨w, hw, rfl⟩ := mem_map.mp hmem
    exact ⟨w, hw, rfl⟩
  · rintro ⟨w, hw, rfl⟩
    have hmem : (w.txn, l.2.1, w.mode) ∈ es.map fun w => (w.txn, l.2.1, w.mode) := mem_map_of_mem hw
    rw [hes] at hmem
    exact ⟨_, (mem_filter.mp hmem).1, rfl, rfl⟩

lemma exists_split_of_sublist {β : Type} {a b : β} {l : List β} (h : [a, b].Sublist l) :
    ∃ before after, l = before ++ b :: after ∧ a ∈ before := by
  obtain ⟨l₁, l₂, rfl, ha, hb⟩ := cons_sublist_iff.mp h
  obtain ⟨s, t, rfl⟩ := append_of_mem (singleton_sublist.mp hb)
  exact ⟨l₁ ++ s, t, by simp, mem_append_left s ha⟩

lemma mem_waitForGraph {t : LockTable} :
    (a, b) ∈ (waitForGraph t.waiters t.holders).edges ↔ t.Blocks a b := by
  rw [waitForGraph, mem_waitEdges]
  constructor
  · rintro ⟨before, l, after, hsplit, hmem⟩
    rw [nil_append, mem_waiterEdges] at hmem
    obtain ⟨rfl, hne, hback⟩ := hmem
    obtain ⟨es, x, fs, hqueue, hx, hbefore⟩ := LockTable.split_waiters hsplit
    refine ⟨hne, l.2.1, x, by simp [hqueue], congrArg Prod.fst hx, ?_⟩
    rcases hback with ⟨h, hh, hr, rfl, hm⟩ | hahead
    · obtain ⟨g, hg, hgl⟩ := LockTable.mem_holders.mp hh
      rw [hr] at hg hgl
      have hmode : x.mode = l.2.2 := congrArg (fun p => p.2.2) hx
      have hgmode : g.mode = h.2.2 := congrArg (fun p => p.2.2) hgl
      exact .inl ⟨g, hg, congrArg Prod.fst hgl, by rw [hmode, hgmode, hm]⟩
    · obtain ⟨y, hy, rfl⟩ := (hbefore b).mp hahead
      exact .inr ⟨y, hqueue ▸ (singleton_sublist.mpr hy).append (singleton_sublist.mpr (by simp)),
        rfl⟩
  · rintro ⟨hne, r, x, hx, rfl, hback⟩
    have hlines : ((t.entry r).queue.map fun w => (w.txn, r, w.mode)).Sublist t.waiters :=
      t.filter_waiters r ▸ filter_sublist
    rcases hback with ⟨h, hh, rfl, hm⟩ | ⟨y, hyx, rfl⟩
    · obtain ⟨before, after, hsplit⟩ := append_of_mem (hlines.subset (mem_map_of_mem hx))
      refine ⟨before, _, after, hsplit, mem_waiterEdges.mpr ⟨rfl, hne, .inl ?_⟩⟩
      exact ⟨(h.txn, r, h.mode), LockTable.mem_holders.mpr ⟨h, hh, rfl⟩, rfl, rfl, hm⟩
    · obtain ⟨before, after, hsplit, hy⟩ := exists_split_of_sublist
        ((hyx.map fun w => (w.txn, r, w.mode)).trans hlines)
      exact ⟨before, _, after, hsplit, mem_waiterEdges.mpr
        ⟨rfl, hne, .inr ⟨_, mem_append_right [] hy, rfl, rfl⟩⟩⟩

/-! ### The search of the monitor -/

namespace WaitGraph

variable {g : WaitGraph} {a b : TxnId}

lemma mem_successors : b ∈ g.successors a ↔ (a, b) ∈ g.edges := by
  simp [successors, mem_dedup, (perm_insertionSort _ _).mem_iff]

lemma length_successors_le (g : WaitGraph) (a : TxnId) :
    (g.successors a).length ≤ g.edges.countP fun e => e.1 = a := by
  refine (dedup_sublist _).length_le.trans ?_
  rw [length_insertionSort, length_map, countP_eq_length_filter]

/-- The transactions the graph names, and the start of a search. -/
def nodes (g : WaitGraph) (start : TxnId) : Finset TxnId :=
  (start :: (g.edges.map Prod.fst ++ g.edges.map Prod.snd)).toFinset

lemma sum_countP_le (V : Finset TxnId) (edges : List (TxnId × TxnId)) :
    ∑ n ∈ V, (edges.countP fun e => e.1 = n) ≤ edges.length := by
  induction edges with
  | nil => simp
  | cons e edges ih =>
    simp only [countP_cons, Finset.sum_add_distrib, length_cons]
    refine Nat.add_le_add ih ?_
    simp only [decide_eq_true_eq]
    rw [Finset.sum_ite_eq]
    split <;> omega

lemma sum_nodes_lt (g : WaitGraph) (start : TxnId) :
    ∑ n ∈ g.nodes start, ((g.successors n).length + 1) < 3 * g.edges.length + 2 := by
  have hcard : (g.nodes start).card ≤ 2 * g.edges.length + 1 := by
    refine (toFinset_card_le _).trans ?_
    simp only [length_cons, length_append, length_map]
    omega
  have hdegree : ∑ n ∈ g.nodes start, (g.successors n).length ≤ g.edges.length :=
    (Finset.sum_le_sum fun n _ => g.length_successors_le n).trans (sum_countP_le _ _)
  rw [Finset.sum_add_distrib, Finset.sum_const, smul_eq_mul, mul_one]
  omega

lemma cycleFrom_spec (g : WaitGraph) (start : TxnId) :
    CycleSearch.Answers g.successors start (g.cycleFrom start) := by
  refine CycleSearch.search_spec (V := g.nodes start) (fun n _ s hs => ?_) (by simp [nodes])
    (g.sum_nodes_lt start)
  have hedge := mem_successors.mp hs
  simp only [nodes, toFinset_cons, Finset.mem_insert, mem_toFinset, mem_append]
  exact .inr (.inr (mem_map_of_mem hedge))

end WaitGraph

end VaubanDB
