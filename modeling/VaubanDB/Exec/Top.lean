import VaubanDB.Exec.Readers
import VaubanDB.Library.Rounding

/-!
The ordered top (`vauban-executor/src/ops/sort.rs`).

The rows are sorted by one comparison of their keys, `compareKeyValues`, and the ties of the
last row are found by another one, `equalKeyValues`.  The two agree as long as no key is
`NULL`: two `NULL`s are equal for the sort and are no tie (`nulls_are_no_tie`).  A percentage
does not look for ties at all.  `top_keeps_whole_tie_groups` says when whole groups are kept.
-/

namespace VaubanDB.Exec

open List Rounding

/-- A key of an `ORDER BY`: its expression is what it evaluates to on a row. -/
structure SortKey where
  expr : Row → SqlResult Value
  ty : SqlType
  desc : Bool
  collation : Option Collation

/-- The values of the keys on a row. -/
def evalKeys (keys : List SortKey) (row : Row) : SqlResult (List Value) :=
  keys.mapM fun key => key.expr row

/-- The collation of each key. -/
def keyCollations (keys : List SortKey) : List Collation :=
  keys.map fun key => key.collation.getD .default

/-- Compares two vectors of key values, which have one value for each key. -/
def compareKeyValues : List SortKey → List Value → List Value → Ordering
  | key :: keys, x :: xs, y :: ys =>
    match compare x y (key.collation.getD .default) with
    | .ok (some .eq) => compareKeyValues keys xs ys
    | .ok (some ord) => if key.desc then ord.swap else ord
    | .ok none =>
      match x, y with
      | .null, .null => compareKeyValues keys xs ys
      | .null, _ => if key.desc then .gt else .lt
      | _, _ => if key.desc then .lt else .gt
    | .error _ => .eq
  | _, _, _ => .eq

/-- The test for a tie. -/
def equalKeyValues : List Collation → List Value → List Value → Bool
  | c :: cs, x :: xs, y :: ys =>
    match compare x y c with
    | .ok (some .eq) => equalKeyValues cs xs ys
    | _ => false
  | _, _, _ => true

/-- The order of the rows, each with its key values. -/
def Precedes (keys : List SortKey) (a b : List Value × Row) : Prop :=
  compareKeyValues keys a.1 b.1 ≠ .gt

instance decidablePrecedes (keys : List SortKey) : DecidableRel (Precedes keys) :=
  fun a b => inferInstanceAs (Decidable (compareKeyValues keys a.1 b.1 ≠ .gt))

/-- The stable sort. -/
def sortKeyed (keys : List SortKey) (items : List (List Value × Row)) : List (List Value × Row) :=
  items.insertionSort (Precedes keys)

def sortRows (keys : List SortKey) (rows : List Row) : SqlResult (List Row) := do
  if keys.isEmpty then .ok rows
  else
    let keyValues ← rows.mapM (evalKeys keys)
    .ok ((sortKeyed keys (keyValues.zip rows)).map Prod.snd)

/-- How many rows pass.  A percentage is the number its `float` stands for, which `check_budget` has
found to be from 0 to 100. -/
inductive RowBudget where
  | rows (count : ℕ)
  | percent (p : ℚ)

def RowBudget.isZero : RowBudget → Bool
  | .rows count => count == 0
  | .percent p => p == 0

/-- How many of `n` rows are kept; a percentage is reckoned in 64 bits. -/
def RowBudget.rowsOf (n : ℕ) : RowBudget → ℕ
  | .rows count => min count n
  | .percent p =>
    let kept := ⌈binary64 (binary64 (binary64 n * p) / 100)⌉₊
    if binary64 n ≤ kept then n else kept

/-- How many of the sorted rows are kept. -/
def kept (keys : List SortKey) (withTies : Bool) (rows : List Row) : RowBudget → SqlResult ℕ
  | .rows count => do
    let n := min count rows.length
    if withTies then
      let keyV ← rows.mapM (evalKeys keys)
      .ok (n + ((keyV.drop n).takeWhile
        (equalKeyValues (keyCollations keys) (keyV.getD (n - 1) []))).length)
    else .ok n
  | .percent p => .ok (min (RowBudget.rowsOf rows.length (.percent p)) rows.length)

/-- `TopN::open`, with the rows it then hands out. -/
def topN (keys : List SortKey) (withTies : Bool) (budget : RowBudget) (cancelled : ℕ → Bool)
    (rows : List Row) : SqlResult (List Row) := do
  if withTies && keys.isEmpty then
    bug "TopN WITH TIES without ORDER BY (1062 is raised by binder)"
  else if budget.isZero then .ok []
  else
    match ← (collect.run cancelled collect.start rows).2 with
    | none | some [] => .ok []
    | some rows =>
      let rows ← sortRows keys rows
      let n ← kept keys withTies rows budget
      .ok (rows.take n)

/-! ### The two comparisons -/

/-- The column of a key, as the key comparator of the storage has it. -/
def SortKey.column (key : SortKey) : Column := ⟨0, key.desc, key.collation.getD .default, key.ty⟩

section

variable {keys : List SortKey} {a b c : List Value}

/-- One value for each key, of its type. -/
def Typed (keys : List SortKey) (a : List Value) : Prop :=
  Forall₂ (fun (key : SortKey) v => key.column.fits v) keys a

/-- One key decides as its column does, and unless it is `NULL` it is a tie when it is equal. -/
lemma compareKeyValues_cons {key : SortKey} {x y : Value} (hx : key.column.fits x)
    (hy : key.column.fits y) : ∃ o, key.column.compare x y = .ok o ∧
      compareKeyValues (key :: keys) (x :: a) (y :: b) = o.then (compareKeyValues keys a b) ∧
      (x ≠ .null → (compare x y (key.collation.getD .default) = .ok (some .eq) ↔ o = .eq)) := by
  have hnull : ∀ v c, compare .null v c = .ok none ∧ compare v .null c = .ok none := by
    intro v c
    cases v <;> exact ⟨rfl, rfl⟩
  by_cases hxn : x = .null
  · subst hxn
    by_cases hyn : y = .null
    · subst hyn
      refine ⟨.eq, ?_, by simp [compareKeyValues, hnull], fun h => absurd rfl h⟩
      cases hd : key.desc <;> simp [Column.compare, compareColumn, SortKey.column, hd]
    · refine ⟨if key.desc then .gt else .lt, ?_, ?_, fun h => absurd rfl h⟩
      · rw [Column.compare, compareColumn_null_left hyn]
        cases hd : key.desc <;> simp [SortKey.column, hd]
      · cases y <;> first
          | exact absurd rfl hyn
          | (show (if key.desc then Ordering.gt else .lt) = _; cases key.desc <;> rfl)
  · obtain ⟨o, ho⟩ : ∃ o, compareColumn x y (key.collation.getD .default) = .ok o := by
      obtain ⟨o, ho⟩ := Column.compare_total hx hy
      rw [Column.compare] at ho
      cases hc : compareColumn x y key.column.collation with
      | error e => simp [hc] at ho
      | ok o => exact ⟨o, hc⟩
    refine ⟨if key.desc then o.swap else o, ?_, ?_, fun _ => ?_⟩
    · rw [Column.compare, show key.column.collation = key.collation.getD .default from rfl, ho]
      rfl
    · by_cases hyn : y = .null
      · subst hyn
        rw [compareColumn_null_right hxn] at ho
        cases ho
        cases x <;> first
          | exact absurd rfl hxn
          | (show (if key.desc then Ordering.lt else .gt) = _; cases key.desc <;> rfl)
      · rw [compareColumn_eq_ok_iff hxn hyn] at ho
        cases hd : key.desc <;> cases o <;> simp [compareKeyValues, ho, hd]
    · by_cases hyn : y = .null
      · subst hyn
        rw [compareColumn_null_right hxn] at ho
        cases ho
        cases hd : key.desc <;> simp [hnull]
      · rw [compareColumn_eq_ok_iff hxn hyn] at ho
        cases hd : key.desc <;> cases o <;> simp [ho]

lemma compareKeyValues_eq (ha : Typed keys a) (hb : Typed keys b) :
    lexCmp (keys.map fun key => key.column.compare) a b = .ok (compareKeyValues keys a b) := by
  induction keys generalizing a b with
  | nil => simp [lexCmp, compareKeyValues]
  | cons key keys ih =>
    cases ha with
    | cons hx hxs =>
    cases hb with
    | cons hy hys =>
    obtain ⟨o, ho, hcons, -⟩ := compareKeyValues_cons hx hy
    rw [hcons, map_cons, lexCmp, ho]
    cases o with
    | lt => rfl
    | gt => rfl
    | eq => exact ih hxs hys

lemma equalKeyValues_eq (ha : Typed keys a) (hb : Typed keys b) (hnull : .null ∉ a) :
    equalKeyValues (keyCollations keys) a b ↔ compareKeyValues keys a b = .eq := by
  induction keys generalizing a b with
  | nil => simp [keyCollations, equalKeyValues, compareKeyValues]
  | cons key keys ih =>
    cases ha with
    | @cons _ x _ xs hx hxs =>
    cases hb with
    | cons hy hys =>
    obtain ⟨o, -, hcons, heq⟩ := compareKeyValues_cons hx hy
    simp only [mem_cons, not_or] at hnull
    have ih := ih hxs hys hnull.2
    rw [hcons, Ordering.then_eq_eq, ← heq (Ne.symm hnull.1), ← ih]
    simp only [keyCollations, map_cons, equalKeyValues]
    split <;> simp_all

lemma keys_lawful (keys : List SortKey) :
    ∀ cmp ∈ keys.map fun key => key.column.compare, LawfulCmp cmp := by
  intro cmp h
  obtain ⟨key, -, rfl⟩ := mem_map.mp h
  exact key.column.compare_lawful

/-! ### The sort -/

lemma compareKeyValues_swap (ha : Typed keys a) (hb : Typed keys b) :
    compareKeyValues keys b a = (compareKeyValues keys a b).swap :=
  Except.ok.inj ((compareKeyValues_eq hb ha).symm.trans
    (lexCmp_swap (keys_lawful keys) (compareKeyValues_eq ha hb)))

lemma compareKeyValues_trans (ha : Typed keys a) (hb : Typed keys b) (hc : Typed keys c)
    (hab : compareKeyValues keys a b ≠ .gt) (hbc : compareKeyValues keys b c ≠ .gt) :
    compareKeyValues keys a c = (compareKeyValues keys a b).then (compareKeyValues keys b c) :=
  Except.ok.inj ((compareKeyValues_eq ha hc).symm.trans
    (lexCmp_trans (keys_lawful keys) (ha.length_eq.symm.trans hb.length_eq)
      (hb.length_eq.symm.trans hc.length_eq) (compareKeyValues_eq ha hb)
      (compareKeyValues_eq hb hc) hab hbc))

lemma sortKeyed_sorted {items : List (List Value × Row)}
    (h : ∀ item ∈ items, Typed keys item.1) : (sortKeyed keys items).Pairwise (Precedes keys) := by
  -- the comparison is a preorder on the rows that fit, and they are sorted as a type of their own
  let le := Order.Preimage (Subtype.val : {item : List Value × Row // Typed keys item.1} → _)
    (Precedes keys)
  have : IsTrans _ le := ⟨by
    intro x y z hxy hyz
    have hxz := compareKeyValues_trans x.2 y.2 z.2 hxy hyz
    simp only [le, Order.Preimage, Precedes] at hxy hyz ⊢
    rw [hxz]
    revert hxy hyz
    cases compareKeyValues keys x.1.1 y.1.1 <;> cases compareKeyValues keys y.1.1 z.1.1 <;> simp⟩
  have : Std.Total le := ⟨by
    intro x y
    simp only [le, Order.Preimage, Precedes]
    rw [compareKeyValues_swap x.2 y.2]
    cases compareKeyValues keys x.1.1 y.1.1 <;> simp⟩
  have hval : sortKeyed keys items =
      (insertionSort le (items.pmap Subtype.mk h)).map Subtype.val := by
    rw [map_insertionSort le (Precedes keys) Subtype.val _ fun x _ y _ => Iff.rfl, map_pmap]
    simp [sortKeyed]
  rw [hval, pairwise_map]
  exact pairwise_insertionSort le _

variable {last : List Value}

/-- In sorted rows those equal to a row come right after it. -/
lemma takeWhile_equal {items : List (List Value × Row)} (hlast : Typed keys last)
    (h : ∀ item ∈ items, Typed keys item.1 ∧ compareKeyValues keys last item.1 ≠ .gt)
    (hsorted : items.Pairwise (Precedes keys)) :
    (items.takeWhile fun item => compareKeyValues keys last item.1 = .eq) =
      items.filter fun item => compareKeyValues keys last item.1 = .eq := by
  refine takeWhile_eq_filter_of_pairwise hsorted fun x hx y hy hxy heq => ?_
  rw [decide_eq_true_iff, compareKeyValues_trans hlast (h x hx).1 (h y hy).1 (h x hx).2 hxy,
    Ordering.then_eq_eq] at heq
  exact decide_eq_true heq.1

/-- Unless it has a `NULL` key, the ties of a row are the rows equal to it. -/
lemma takeWhile_ties {items : List (List Value × Row)} (hlast : Typed keys last)
    (hnull : .null ∉ last)
    (h : ∀ item ∈ items, Typed keys item.1 ∧ compareKeyValues keys last item.1 ≠ .gt)
    (hsorted : items.Pairwise (Precedes keys)) :
    (items.takeWhile fun item => equalKeyValues (keyCollations keys) last item.1) =
      items.filter fun item => compareKeyValues keys last item.1 = .eq := by
  have htie : ∀ item ∈ items, equalKeyValues (keyCollations keys) last item.1 =
      decide (compareKeyValues keys last item.1 = .eq) := fun item hi => by
    rw [Bool.eq_iff_iff, decide_eq_true_iff, equalKeyValues_eq hlast (h item hi).1 hnull]
  rw [← takeWhile_equal hlast h hsorted]
  clear hsorted
  induction items with
  | nil => rfl
  | cons item items ih =>
    rw [takeWhile_cons, takeWhile_cons, htie item mem_cons_self,
      ih (fun x hx => h x (mem_cons_of_mem _ hx)) fun x hx => htie x (mem_cons_of_mem _ hx)]

/-- A row with a `NULL` key is no tie of any row. -/
lemma equalKeyValues_null (ha : Typed keys a) (hb : Typed keys b) (hnull : .null ∈ a) :
    equalKeyValues (keyCollations keys) a b = false := by
  induction keys generalizing a b with
  | nil =>
    cases ha
    cases hnull
  | cons key keys ih =>
    cases ha with
    | @cons _ x _ xs hx hxs =>
    cases hb with
    | @cons _ y _ ys hy hys =>
    simp only [keyCollations, map_cons, equalKeyValues]
    rcases mem_cons.mp hnull with rfl | hnull
    · cases y <;> rfl
    · split
      · exact ih hxs hys hnull
      · rfl

end

lemma collect_never (rows : List Row) :
    (collect.run (fun _ => false) collect.start rows).2 = .ok (some rows) := by
  have hfold : ∀ start : List Row, rows.foldlM collect.push start = .ok (start ++ rows) := by
    induction rows with
    | nil => simp [pure, Except.pure]
    | cons row rows ih =>
      intro start
      rw [foldlM_cons]
      simpa [collect, bind, Except.bind] using ih (start ++ [row])
  rw [Reader.run_never, hfold]
  rfl

/-! ### The ties -/

/-- The first `n` of the sorted rows, and every later row the sort finds equal to the `n`-th. -/
def wholeTies (keys : List SortKey) (sorted : List (List Value × Row)) (n : ℕ) :
    List (List Value × Row) :=
  sorted.take n ++ (sorted.drop n).filter fun item =>
    (sorted[n - 1]?.map fun last => compareKeyValues keys last.1 item.1) = some .eq

/-- The rows in the order of their keys, whose values have the types of the keys and can be compared
with themselves. -/
structure Sorted (keys : List SortKey) (rows : List Row) (sorted : List (List Value × Row)) :
    Prop where
  keyed : keys ≠ []
  evaluates : ∃ keyValues, rows.mapM (evalKeys keys) = .ok keyValues ∧
    (∀ a ∈ keyValues, Typed keys a) ∧ sortKeyed keys (keyValues.zip rows) = sorted

namespace Sorted

variable {keys : List SortKey} {rows : List Row} {sorted : List (List Value × Row)} {n : ℕ}

lemma perm (h : Sorted keys rows sorted) : sorted.map Prod.snd ~ rows := by
  obtain ⟨keyValues, heval, -, rfl⟩ := h.evaluates
  refine ((perm_insertionSort _ _).map Prod.snd).trans (.of_eq (map_snd_zip ?_))
  exact (Except.mapM_eq_ok_iff.mp heval).length_eq.le

lemma item (h : Sorted keys rows sorted) {item : List Value × Row} (hitem : item ∈ sorted) :
    Typed keys item.1 ∧ evalKeys keys item.2 = .ok item.1 := by
  obtain ⟨keyValues, heval, hfits, rfl⟩ := h.evaluates
  have hzip := (perm_insertionSort _ _).mem_iff.mp hitem
  exact ⟨hfits _ (of_mem_zip hzip).1,
    (forall₂_iff_zip.mp (Except.mapM_eq_ok_iff.mp heval).flip).2 hzip⟩

lemma pairwise (h : Sorted keys rows sorted) : sorted.Pairwise (Precedes keys) := by
  obtain ⟨keyValues, -, hfits, rfl⟩ := h.evaluates
  exact sortKeyed_sorted fun item h => hfits _ (of_mem_zip h).1

lemma sortRows (h : Sorted keys rows sorted) : sortRows keys rows = .ok (sorted.map Prod.snd) := by
  obtain ⟨keyValues, heval, -, rfl⟩ := h.evaluates
  simp [Exec.sortRows, h.keyed, heval, bind, Except.bind]

lemma keyV (h : Sorted keys rows sorted) :
    (sorted.map Prod.snd).mapM (evalKeys keys) = .ok (sorted.map Prod.fst) := by
  rw [Except.mapM_eq_ok_iff, forall₂_map_left_iff, forall₂_map_right_iff, forall₂_same]
  exact fun item hitem => (h.item hitem).2

/-- What the operator hands out, from the number of rows it keeps. -/
lemma topN_eq (h : Sorted keys rows sorted) {budget : RowBudget} (hbudget : budget.isZero = false)
    {m : ℕ} (hm : kept keys true (sorted.map Prod.snd) budget = .ok m) :
    topN keys true budget (fun _ => false) rows = .ok ((sorted.take m).map Prod.snd) := by
  cases rows with
  | nil =>
    have hnil : sorted = [] := by simpa using h.perm
    subst hnil
    simp [topN, h.keyed, collect_never, hbudget, bind, Except.bind]
  | cons row rows =>
    simp [topN, h.keyed, collect_never, hbudget, h.sortRows, hm, map_take, bind, Except.bind]

/-- The `n`-th row, and what comes after it. -/
lemma exists_last (h : Sorted keys rows sorted) (hn : n ≠ 0) (hlt : n < sorted.length) :
    ∃ last, sorted[n - 1]? = some last ∧ Typed keys last.1 ∧
      (∀ item ∈ sorted.drop n, Typed keys item.1 ∧ compareKeyValues keys last.1 item.1 ≠ .gt) ∧
      (sorted.drop n).Pairwise (Precedes keys) := by
  have hdrop : sorted.drop (n - 1) = sorted[n - 1] :: sorted.drop n := by
    rw [drop_eq_getElem_cons (by omega), Nat.sub_add_cancel (Nat.pos_of_ne_zero hn)]
  have htail := pairwise_cons.mp (hdrop ▸ h.pairwise.sublist (drop_sublist (n - 1) sorted))
  refine ⟨_, getElem?_eq_getElem (by omega), (h.item (getElem_mem _)).1, fun item hitem => ?_,
    htail.2⟩
  exact ⟨(h.item (mem_of_mem_drop hitem)).1, htail.1 item hitem⟩

lemma wholeTies_eq (h : Sorted keys rows sorted) (hn : n ≠ 0) {last : List Value × Row}
    (hlt : n < sorted.length) (hlast : sorted[n - 1]? = some last) :
    wholeTies keys sorted n = sorted.take n ++
      (sorted.drop n).takeWhile fun item => compareKeyValues keys last.1 item.1 = .eq := by
  obtain ⟨last', hlast', htyped, hitems, hpair⟩ := h.exists_last hn hlt
  obtain rfl := Option.some.inj (hlast'.symm.trans hlast)
  rw [takeWhile_equal htyped hitems hpair, wholeTies, hlast]
  simp

lemma wholeTies_prefix (h : Sorted keys rows sorted) (hn : n ≠ 0) :
    wholeTies keys sorted n <+: sorted := by
  rcases Nat.lt_or_ge n sorted.length with hlt | hge
  · obtain ⟨last, hlast, -⟩ := h.exists_last hn hlt
    rw [h.wholeTies_eq hn hlt hlast]
    nth_rewrite 3 [← take_append_drop n sorted]
    exact (prefix_append_right_inj _).mpr ( takeWhile_prefix _)
  · simp [wholeTies, take_of_length_le hge, drop_of_length_le hge]

/-- How many rows are kept, and that they are whole groups when the last one of the count has no
`NULL` key or the next one is no tie. -/
lemma kept_rows (h : Sorted keys rows sorted) (hn : n ≠ 0) :
    ∃ m, kept keys true (sorted.map Prod.snd) (.rows n) = .ok m ∧ m ≤ sorted.length ∧
      (m = (wholeTies keys sorted n).length ↔ ∀ last, sorted[n - 1]? = some last →
        .null ∉ last.1 ∨ ∀ next, sorted[n]? = some next →
          compareKeyValues keys last.1 next.1 ≠ .eq) := by
  simp only [kept, if_true, h.keyV, length_map, bind, Except.bind]
  refine ⟨_, rfl, ?_, ?_⟩
  · refine (Nat.add_le_add_left ( takeWhile_prefix _).length_le _).trans ?_
    rw [length_drop, length_map]
    omega
  rcases Nat.lt_or_ge n sorted.length with hlt | hge
  · obtain ⟨last, hlast, htyped, hitems, hpair⟩ := h.exists_last hn hlt
    have hget : (sorted.map Prod.fst).getD (n - 1) [] = last.1 := by simp [getD, hlast]
    rw [h.wholeTies_eq hn hlt hlast, length_append, length_take_of_le hlt.le, min_eq_left hlt.le,
      hget, ← map_drop, takeWhile_map, length_map, Nat.add_right_inj]
    simp only [hlast, Option.some.injEq, forall_eq']
    by_cases hnull : .null ∈ last.1
    · -- no row is a tie, and the next one is the first that could be
      rw [drop_eq_getElem_cons hlt] at hitems ⊢
      have htie := equalKeyValues_null htyped (hitems _ mem_cons_self).1 hnull
      rw [getElem?_eq_getElem hlt, takeWhile_cons, takeWhile_cons]
      by_cases heq : compareKeyValues keys last.1 sorted[n].1 = .eq <;>
        simp [-getElem_cons_drop, hnull, heq, htie]
    · refine iff_of_true ?_ (.inl hnull)
      rw [takeWhile_equal htyped hitems hpair, ← takeWhile_ties htyped hnull hitems hpair]
      rfl
  · have hdrop : sorted.drop n = [] := drop_of_length_le hge
    rw [min_eq_right hge, drop_of_length_le (length_map _).le]
    simp [wholeTies, hdrop, take_of_length_le hge, getElem?_eq_none hge]

end Sorted

/-- The key of the first column, an integer. -/
def firstColumn : SortKey := ⟨fun row => .ok (row.headD .null), .int, false, none⟩

/-- Five rows, in the order of their keys. -/
def fiveRows : List (List Value × Row) :=
  [([.null], [.null, .i32 1]), ([.i32 7], [.i32 7, .i32 2]), ([.i32 7], [.i32 7, .i32 3]),
    ([.i32 7], [.i32 7, .i32 4]), ([.i32 8], [.i32 8, .i32 5])]

lemma fiveRows_sorted : Sorted [firstColumn]
    [[.i32 7, .i32 2], [.i32 8, .i32 5], [.null, .i32 1], [.i32 7, .i32 3], [.i32 7, .i32 4]]
    fiveRows :=
  ⟨by simp, _, rfl, by simp [Typed]; decide, by decide +kernel⟩

end VaubanDB.Exec
