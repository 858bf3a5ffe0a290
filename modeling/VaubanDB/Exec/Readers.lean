import VaubanDB.Memory.KeyOrder
import VaubanDB.Types.SortKeyOrder

/-!
The operators that read a whole input before they hand out a row
(`vauban-executor/src/ops/sort.rs`, `setop.rs`, `aggregate.rs`, `hash_join.rs`, `limit.rs` and
`spool.rs`, over the table of `operator/hash_table.rs`).

A `Reader` says what an operator does with a row, and after which rows it reads the cancellation
token; the expressions and the aggregate functions are parameters.  An operator that counts every
row reads the token in time.  `DISTINCT` counts the rows it keeps, the hash aggregate the values of
a row, and the left operand of `EXCEPT` and `INTERSECT` the rows since the last one handed out:
`token_read_regularly` says for which inputs they are in time, and `duplicates_hide_the_token` that
there are others.
-/

namespace VaubanDB.Exec

open List

/-! ### The hash table -/

abbrev Key := List UInt8

/-- The values of a table under their keys, in the order the keys were first inserted. -/
abbrev HashTable (V : Type) := List (Key × V)

variable {V : Type}

def HashTable.find (t : HashTable V) (key : Key) : Bool := t.any fun slot => slot.1 == key

/-- The table once `key` has a value, made by `make` when the key is new. -/
def HashTable.entry (t : HashTable V) (key : Key) (make : SqlResult V) : SqlResult (HashTable V) :=
  if t.find key then .ok t else make.map fun value => t ++ [(key, value)]

/-- What the caller of `entry` does to the value it is given. -/
def HashTable.change (t : HashTable V) (key : Key) (f : V → SqlResult V) :
    SqlResult (HashTable V) :=
  t.mapM fun slot => if slot.1 = key then (f slot.2).map (slot.1, ·) else .ok slot

abbrev KeySet := List Key

/-- Adds `key`; `true` when it was not in the set yet. -/
def KeySet.insert (s : KeySet) (key : Key) : KeySet × Bool :=
  if key ∈ s then (s, false) else (s ++ [key], true)

/-- `RowSet::answers`: the set of the keys handed out, and whether this one is, which `present`
wants on the right or absent from it. -/
def KeySet.answers (right : KeySet) (present : Bool) (emitted : KeySet) (key : Key) :
    KeySet × Bool :=
  if decide (key ∈ right) = present then emitted.insert key else (emitted, false)

/-- The key of the visible columns of a row, which are the first ones. -/
def encodeRow (collations : List Collation) (row : Row) : SqlResult Key :=
  encodeKeys collations (row.take collations.length)

/-! ### The loop -/

def cancelCheckRows : ℕ := 1024

/-- The test of a counter before the token is read. -/
def due (count : ℕ) : Bool := count % cancelCheckRows == 0

/-- An operator that reads its whole input: the state it starts from, what a row does to it,
and whether the token is read after the row. -/
structure Reader (σ : Type) where
  start : σ
  push : σ → Row → SqlResult σ
  looks : σ → Row → Bool

variable {σ : Type} (R : Reader σ) (cancelled : ℕ → Bool)

/-- The loop over the input; `cancelled n` is what the token says with `n` rows still to come.
It answers, for every row gone through, whether the token was read after it, and the state at
the end: `none` when the token was up. -/
def Reader.run : σ → List Row → List Bool × SqlResult (Option σ)
  | s, [] => ([], .ok (some s))
  | s, row :: rows =>
    match R.push s row with
    | .error e => ([], .error e)
    | .ok s' =>
      if R.looks s' row && cancelled rows.length then ([true], .ok none)
      else
        let rest := run s' rows
        (R.looks s' row :: rest.1, rest.2)

lemma Reader.run_never (s : σ) (rows : List Row) :
    (R.run (fun _ => false) s rows).2 = (rows.foldlM R.push s).map some := by
  induction rows generalizing s with
  | nil => rfl
  | cons row rows ih =>
    rw [run, foldlM_cons]
    cases R.push s row with
    | error e => rfl
    | ok s' => simpa [bind, Except.bind] using ih s'

/-- After which rows the token is read. -/
abbrev Reader.reads (rows : List Row) : List Bool := (R.run cancelled R.start rows).1

/-! ### The operators -/

/-- The rows in a vector, its length tested after every row. -/
def collect : Reader (List Row) where
  start := []
  push rows row := .ok (rows ++ [row])
  looks rows _ := due rows.length

variable (collations : List Collation)

/-- `Distinct::open`: the counter is the number of rows kept. -/
def distinct : Reader (KeySet × List Row) where
  start := ([], [])
  push s row := do
    let key ← encodeRow collations row
    let (seen, new) := s.1.insert key
    .ok (seen, if new then s.2 ++ [row] else s.2)
  looks s _ := due s.2.length

/-- The right operand of `Except::open` and `Intersect::open`, with the count of its rows. -/
def rightRows : Reader (KeySet × ℕ) where
  start := ([], 0)
  push s row := do
    let key ← encodeRow collations row
    .ok ((s.1.insert key).1, s.2 + 1)
  looks s _ := due s.2

/-- The left operand of `Except::next` and `Intersect::next`, with the count of a call: a row that
is answered ends it without a look at the token. -/
def leftRows (right : KeySet) (present : Bool) : Reader (KeySet × ℕ) where
  start := ([], 0)
  push s row := do
    let key ← encodeRow collations row
    let (emitted, answered) := right.answers present s.1 key
    .ok (emitted, if answered then 0 else s.2 + 1)
  looks s _ := s.2 ≠ 0 && due s.2

/-- `HashAggregate::open`: what is tested is the number of values of the row. -/
def hashAggregate {G : Type} (keys : Row → SqlResult (List Value))
    (new : List Value → SqlResult G) (accumulate : G → Row → SqlResult G) :
    Reader (HashTable G) where
  start := []
  push groups row := do
    let values ← keys row
    let key ← encodeKeys collations values
    let groups ← groups.entry key (new values)
    groups.change key (accumulate · row)
  looks _ row := due row.length

/-- The rows of the build side of a join, and where each key has them. -/
structure BuildSide where
  table : HashTable (List ℕ)
  rows : List Row
  nullKeyRows : List Row
  read : ℕ

/-- One row of a build side; `keep` says what becomes of a row with a `NULL` key. -/
def BuildSide.push (keys : Row → SqlResult (Option (List Value)))
    (keep : List Row → Row → List Row) (s : BuildSide) (row : Row) : SqlResult BuildSide := do
  match ← keys row with
  | none => .ok { s with nullKeyRows := keep s.nullKeyRows row, read := s.read + 1 }
  | some values =>
    let key ← encodeKeys collations values
    let table ← s.table.entry key (.ok [])
    let table ← table.change key fun positions => .ok (positions ++ [s.rows.length])
    .ok { s with table, rows := s.rows ++ [row], read := s.read + 1 }

/-- `HashJoin::build_table` drops a row with a `NULL` key, and reads the token before every row. -/
def hashJoin (keys : Row → SqlResult (Option (List Value))) : Reader BuildSide where
  start := ⟨[], [], [], 0⟩
  push := BuildSide.push collations keys fun rows _ => rows
  looks _ _ := true

/-- `HashSemiJoin::build_table` keeps them aside, and counts the rows it reads. -/
def hashSemiJoin (keys : Row → SqlResult (Option (List Value))) : Reader BuildSide where
  start := ⟨[], [], [], 0⟩
  push := BuildSide.push collations keys fun rows row => rows ++ [row]
  looks s _ := due s.read

/-- The operators, each with what its loop reads. -/
inductive Operator (G : Type) where
  | sort
  | topN
  | limit
  | spool
  | distinct (collations : List Collation)
  | exceptRight (collations : List Collation)
  | intersectRight (collations : List Collation)
  | exceptLeft (collations : List Collation) (right : KeySet)
  | intersectLeft (collations : List Collation) (right : KeySet)
  | hashAggregate (collations : List Collation) (keys : Row → SqlResult (List Value))
      (new : List Value → SqlResult G) (accumulate : G → Row → SqlResult G)
  | hashJoin (collations : List Collation) (keys : Row → SqlResult (Option (List Value)))
  | hashSemiJoin (collations : List Collation) (keys : Row → SqlResult (Option (List Value)))
      (existenceOnly : Bool)

variable {G : Type}

/-- The loop of each operator, over the rows it goes through. -/
def Operator.reads (rows : List Row) : Operator G → List Bool
  | .sort | .topN | .limit | .spool => collect.reads cancelled rows
  | .distinct cs => (Exec.distinct cs).reads cancelled rows
  | .exceptRight cs | .intersectRight cs => (rightRows cs).reads cancelled rows
  | .exceptLeft cs right => (leftRows cs right false).reads cancelled rows
  | .intersectLeft cs right => (leftRows cs right true).reads cancelled rows
  | .hashAggregate cs keys new accumulate =>
    (Exec.hashAggregate cs keys new accumulate).reads cancelled rows
  | .hashJoin cs keys => (Exec.hashJoin cs keys).reads cancelled rows
  | .hashSemiJoin cs keys existenceOnly =>
    -- without a key and a condition the first row settles the join
    (Exec.hashSemiJoin cs keys).reads cancelled (if existenceOnly then rows.take 1 else rows)

/-! ### How often the token is read -/

/-- Any `cancelCheckRows` rows in a row have one after which the token is read. -/
def Regular (reads : List Bool) : Prop :=
  ∀ i, i + cancelCheckRows ≤ reads.length →
    ∃ j, i ≤ j ∧ j < i + cancelCheckRows ∧ reads[j]? = some true

/-- The keys of the rows, the newest row first. -/
def keysOf (done : List Row) : List Key :=
  done.filterMap fun row => (encodeRow collations row).toOption

/-- Whether a row is handed out after the rows `done`: it is the first of its value, and on the
right or absent from it as `present` says. -/
def answered (right : KeySet) (present : Bool) (done : List Row) (row : Row) : Bool :=
  match encodeRow collations row with
  | .ok key => decide (key ∈ right) = present && key ∉ keysOf collations done
  | .error _ => false

/-- The rows since the last one that is handed out. -/
def unanswered (right : KeySet) (present : Bool) : List Row → ℕ
  | [] => 0
  | row :: done =>
    if answered collations right present done row then 0 else unanswered right present done + 1

/-- Whether the token is read once the rows `done` are, the newest first. -/
def Operator.looksAfter (done : List Row) : Operator G → Bool
  | .distinct cs => due (keysOf cs done).dedup.length
  | .hashAggregate .. => due (done.headD []).length
  | .exceptLeft cs right =>
    unanswered cs right false done ≠ 0 && due (unanswered cs right false done)
  | .intersectLeft cs right =>
    unanswered cs right true done ≠ 0 && due (unanswered cs right true done)
  | .hashJoin .. => true
  | _ => due done.length

/-- Any `cancelCheckRows` rows of the input in a row have one that `L` asks to look after. -/
def Due (L : List Row → Bool) (rows : List Row) : Prop :=
  ∀ i, i + cancelCheckRows ≤ rows.length →
    ∃ j, i ≤ j ∧ j < i + cancelCheckRows ∧ L (rows.take (j + 1)).reverse

/-- The operators that count every row they go through, or look after every one. -/
def Operator.CountsRows : Operator G → Prop
  | .distinct _ | .hashAggregate .. | .exceptLeft .. | .intersectLeft .. => False
  | _ => True

/-- The token is read after the rows that `L` says, the rows done given newest first. -/
def Follows (reads : List Bool) (L : List Row → Bool) (rows : List Row) : Prop :=
  reads.length ≤ rows.length ∧
    ∀ j < reads.length, reads[j]? = some (L (rows.take (j + 1)).reverse)

section Reads

variable {R cancelled}

/-- What a run answers when a step says, from what the state is after some rows, whether the token
is read after the next one. -/
lemma Reader.reads_spec {I : List Row → σ → Prop} {L : List Row → Bool}
    (hpush : ∀ done s row s', I done s → R.push s row = .ok s' →
      I (row :: done) s' ∧ R.looks s' row = L (row :: done))
    {done : List Row} {s : σ} (hI : I done s) (rows : List Row) :
    (R.run cancelled s rows).1.length ≤ rows.length ∧
      ∀ j < (R.run cancelled s rows).1.length,
        (R.run cancelled s rows).1[j]? = some (L ((rows.take (j + 1)).reverse ++ done)) := by
  induction rows generalizing done s with
  | nil => simp [run]
  | cons row rows ih =>
    rw [run]
    cases hp : R.push s row with
    | error e => simp
    | ok s' =>
      obtain ⟨hI', hlook⟩ := hpush done s row s' hI hp
      obtain ⟨hlen, hreads⟩ := ih hI'
      dsimp only
      split_ifs with hstop
      · have hlooked := (Bool.and_eq_true_iff.mp hstop).1
        simp [← hlook, hlooked]
      · refine ⟨Nat.succ_le_succ hlen, fun j hj => ?_⟩
        cases j with
        | zero => simp [hlook]
        | succ j => simpa using hreads j (Nat.succ_lt_succ_iff.mp hj)

lemma Reader.follows {I : List Row → σ → Prop} {L : List Row → Bool} (hI : I [] R.start)
    (hpush : ∀ done s row s', I done s → R.push s row = .ok s' →
      I (row :: done) s' ∧ R.looks s' row = L (row :: done)) (rows : List Row) :
    Follows (R.reads cancelled rows) L rows := by
  have h : _ ∧ ∀ j < (R.run cancelled R.start rows).1.length, _ := reads_spec hpush hI rows
  simp only [append_nil] at h
  exact h

lemma Reader.length_reads {rows : List Row} (h : ∀ row ∈ rows, ∀ s, ∃ s', R.push s row = .ok s')
    (s : σ) : (R.run (fun _ => false) s rows).1.length = rows.length := by
  induction rows generalizing s with
  | nil => rfl
  | cons row rows ih =>
    obtain ⟨s', hs'⟩ := h row mem_cons_self s
    simp [run, hs', ih (fun row hrow => h row (mem_cons_of_mem _ hrow)) s']

/-- A row that leaves the state as it is, and after which the token is not read. -/
lemma Reader.reads_replicate {s₀ s : σ} {row : Row} (h₀ : R.push s₀ row = .ok s)
    (h : R.push s row = .ok s) (hl : R.looks s row = false) (n : ℕ) :
    (R.run cancelled s₀ (replicate n row)).1 = replicate n false := by
  induction n generalizing s₀ with
  | zero => rfl
  | succ n ih => simp [replicate_succ, run, h₀, hl, ih h]

end Reads

lemma not_regular_replicate : ¬ Regular (replicate cancelCheckRows false) := by
  intro h
  obtain ⟨j, _, _, hj⟩ := h 0 (by simp)
  simp [getElem?_replicate] at hj

lemma BuildSide.push_read {keys : Row → SqlResult (Option (List Value))}
    {keep : List Row → Row → List Row} {s s' : BuildSide} {row : Row}
    (h : BuildSide.push collations keys keep s row = .ok s') : s'.read = s.read + 1 := by
  rw [push] at h
  obtain ⟨values, _, h⟩ := Except.bind_eq_ok_iff.mp h
  cases values with
  | none =>
    cases h
    rfl
  | some values =>
    obtain ⟨key, _, h⟩ := Except.bind_eq_ok_iff.mp h
    obtain ⟨entered, _, h⟩ := Except.bind_eq_ok_iff.mp h
    obtain ⟨table, _, h⟩ := Except.bind_eq_ok_iff.mp h
    cases h
    rfl

variable {collations}

lemma keysOf_cons {row : Row} {key : Key} (h : encodeRow collations row = .ok key)
    (done : List Row) : keysOf collations (row :: done) = key :: keysOf collations done := by
  simp [keysOf, h, Except.toOption]

lemma KeySet.mem_insert {s : KeySet} {key key' : Key} :
    key' ∈ (s.insert key).1 ↔ key' = key ∨ key' ∈ s := by
  unfold insert
  split_ifs with hmem
  · exact ⟨.inr, fun h => h.elim (· ▸ hmem) id⟩
  · simp [or_comm]

/-- The rows `DISTINCT` keeps are as many as the keys it has seen. -/
lemma distinct_push {done : List Row} {s s' : KeySet × List Row} {row : Row}
    (hI : (∀ key, key ∈ s.1 ↔ key ∈ keysOf collations done) ∧
      s.2.length = (keysOf collations done).dedup.length)
    (hp : (distinct collations).push s row = .ok s') :
    (∀ key, key ∈ s'.1 ↔ key ∈ keysOf collations (row :: done)) ∧
      s'.2.length = (keysOf collations (row :: done)).dedup.length := by
  obtain ⟨key, hkey, hp⟩ := Except.bind_eq_ok_iff.mp hp
  obtain rfl : ((s.1.insert key).1, if (s.1.insert key).2 then s.2 ++ [row] else s.2) = s' :=
    Except.ok.inj hp
  rw [keysOf_cons hkey]
  refine ⟨fun key' => KeySet.mem_insert.trans (by rw [mem_cons, hI.1]), ?_⟩
  by_cases hmem : key ∈ s.1
  · rw [dedup_cons_of_mem ((hI.1 key).mp hmem), ← hI.2]
    simp [KeySet.insert, hmem]
  · rw [dedup_cons_of_notMem fun h => hmem ((hI.1 key).mpr h)]
    simp [KeySet.insert, hmem, hI.2]

/-- The count of a call is that of the rows since the last one handed out. -/
lemma leftRows_push {right : KeySet} {present : Bool} {done : List Row} {s s' : KeySet × ℕ}
    {row : Row}
    (hI : (∀ key, key ∈ s.1 ↔ decide (key ∈ right) = present ∧ key ∈ keysOf collations done) ∧
      s.2 = unanswered collations right present done)
    (hp : (leftRows collations right present).push s row = .ok s') :
    (∀ key, key ∈ s'.1 ↔ decide (key ∈ right) = present ∧ key ∈ keysOf collations (row :: done)) ∧
      s'.2 = unanswered collations right present (row :: done) := by
  obtain ⟨key, hkey, hp⟩ := Except.bind_eq_ok_iff.mp hp
  obtain rfl : ((right.answers present s.1 key).1,
      if (right.answers present s.1 key).2 then 0 else s.2 + 1) = s' := Except.ok.inj hp
  rw [keysOf_cons hkey, unanswered, answered, hkey, ← hI.2]
  dsimp only
  by_cases hside : decide (key ∈ right) = present
  · have hnew : (s.1.insert key).2 = decide (key ∉ keysOf collations done) := by
      simp [KeySet.insert, hI.1, hside, apply_ite Prod.snd]
    rw [KeySet.answers, if_pos hside, hnew]
    refine ⟨fun key' => KeySet.mem_insert.trans ?_, by simp [hside]⟩
    rw [hI.1, mem_cons]
    grind
  · rw [KeySet.answers, if_neg hside]
    refine ⟨fun key' => (hI.1 key').trans ?_, by simp [hside]⟩
    rw [mem_cons]
    grind

/-! ### Each operator -/

lemma collect_follows (rows : List Row) :
    Follows (collect.reads cancelled rows) (fun done => due done.length) rows := by
  refine Reader.follows (I := fun done s => s.length = done.length) rfl ?_ rows
  rintro done s row s' hI ⟨⟩
  have hlen : (s ++ [row]).length = (row :: done).length := by simp [hI]
  exact ⟨hlen, congrArg due hlen⟩

lemma rightRows_follows (rows : List Row) :
    Follows ((rightRows collations).reads cancelled rows) (fun done => due done.length) rows := by
  refine Reader.follows (I := fun done s => s.2 = done.length) rfl ?_ rows
  intro done s row s' hI hp
  obtain ⟨key, _, hp⟩ := Except.bind_eq_ok_iff.mp hp
  cases hp
  have hlen : s.2 + 1 = (row :: done).length := congrArg (· + 1) hI
  exact ⟨hlen, congrArg due hlen⟩

lemma hashSemiJoin_follows (keys : Row → SqlResult (Option (List Value))) (rows : List Row) :
    Follows ((hashSemiJoin collations keys).reads cancelled rows) (fun done => due done.length)
      rows := by
  refine Reader.follows (I := fun done s => s.read = done.length) rfl ?_ rows
  intro done s row s' hI hp
  have hp : BuildSide.push collations keys (fun rows row => rows ++ [row]) s row = .ok s' := hp
  have hlen : s'.read = (row :: done).length := by rw [BuildSide.push_read collations hp, hI]; rfl
  exact ⟨hlen, congrArg due hlen⟩

lemma distinct_follows (rows : List Row) :
    Follows ((distinct collations).reads cancelled rows)
      (fun done => due (keysOf collations done).dedup.length) rows := by
  refine Reader.follows (I := fun done s => (∀ key, key ∈ s.1 ↔ key ∈ keysOf collations done) ∧
    s.2.length = (keysOf collations done).dedup.length) (by simp [distinct, keysOf]) ?_ rows
  intro done s row s' hI hp
  have hI' := distinct_push hI hp
  exact ⟨hI', congrArg due hI'.2⟩

lemma leftRows_follows (right : KeySet) (present : Bool) (rows : List Row) :
    Follows ((leftRows collations right present).reads cancelled rows) (fun done =>
      unanswered collations right present done ≠ 0 &&
        due (unanswered collations right present done)) rows := by
  refine Reader.follows (I := fun done s =>
    (∀ key, key ∈ s.1 ↔ decide (key ∈ right) = present ∧ key ∈ keysOf collations done) ∧
      s.2 = unanswered collations right present done)
      (by simp [leftRows, keysOf, unanswered]) ?_ rows
  intro done s row s' hI hp
  have hI' := leftRows_push hI hp
  exact ⟨hI', congrArg (fun n : ℕ => decide (n ≠ 0) && due n) hI'.2⟩

/-- After which rows an operator reads the token is what `looksAfter` says of the input. -/
lemma Operator.follows (op : Operator G) (rows : List Row) :
    Follows (op.reads cancelled rows) (op.looksAfter ·) rows := by
  cases op with
  | sort | topN | limit | spool => exact collect_follows cancelled rows
  | distinct cs => exact distinct_follows cancelled rows
  | exceptRight cs | intersectRight cs => exact rightRows_follows cancelled rows
  | exceptLeft cs right => exact leftRows_follows cancelled right false rows
  | intersectLeft cs right => exact leftRows_follows cancelled right true rows
  | hashAggregate | hashJoin =>
    exact Reader.follows (I := fun _ _ => True) trivial (fun _ _ _ _ _ _ => ⟨trivial, rfl⟩) rows
  | hashSemiJoin cs keys existenceOnly =>
    cases existenceOnly with
    | false => exact hashSemiJoin_follows cancelled keys rows
    | true =>
      obtain ⟨hlen, hreads⟩ :
          Follows ((Exec.hashSemiJoin cs keys).reads cancelled (rows.take 1)) _ _ :=
        hashSemiJoin_follows cancelled keys (rows.take 1)
      refine ⟨hlen.trans (length_take_le' _ _), fun j hj => ?_⟩
      have hone : j = 0 := by
        have := hj.trans_le (hlen.trans (length_take_le _ _))
        omega
      subst hone
      exact (hreads 0 hj).trans (by rw [take_take]; rfl)

/-! ### How often -/

variable {reads : List Bool} {L : List Row → Bool} {rows : List Row}

lemma Follows.regular (h : Follows reads L rows) (hdue : Due L rows) : Regular reads := by
  intro i hi
  obtain ⟨j, hij, hj, hlook⟩ := hdue i (hi.trans h.1)
  exact ⟨j, hij, hj, hlook ▸ h.2 j (by omega)⟩

lemma Follows.due (h : Follows reads L rows) (hall : reads.length = rows.length)
    (hregular : Regular reads) : Due L rows := by
  intro i hi
  obtain ⟨j, hij, hj, hread⟩ := hregular i (by rwa [hall])
  refine ⟨j, hij, hj, ?_⟩
  rw [h.2 j (by omega)] at hread
  exact Option.some.inj hread

/-- A count that the number of rows gives is due often enough. -/
lemma due_of_count {c : List Row → ℕ} (hc : ∀ n ≤ rows.length, c (rows.take n).reverse = n) :
    Due (fun done => c done ≠ 0 && due (c done)) rows := by
  intro i hi
  rw [cancelCheckRows] at hi
  refine ⟨i + (1023 - i % 1024), by omega, ?_, ?_⟩
  · rw [cancelCheckRows]
    omega
  · simp only [hc (i + (1023 - i % 1024) + 1) (by omega), due, cancelCheckRows]
    simp only [Bool.and_eq_true, decide_eq_true_eq, beq_iff_eq]
    omega

lemma Due.mono {L' : List Row → Bool} (h : Due L rows) (hle : ∀ done, L done → L' done) :
    Due L' rows := by
  intro i hi
  obtain ⟨j, hij, hj, hlook⟩ := h i hi
  exact ⟨j, hij, hj, hle _ hlook⟩

lemma Operator.CountsRows.due {op : Operator G} (h : op.CountsRows) (rows : List Row) :
    Due (op.looksAfter ·) rows := by
  refine (due_of_count (c := length) fun n hn => ?_).mono fun done hdone => ?_
  · rw [length_reverse, length_take_of_le hn]
  · have hdue := (Bool.and_eq_true_iff.mp hdone).2
    cases op with
    | distinct | hashAggregate | exceptLeft | intersectLeft => exact h.elim
    | hashJoin => rfl
    | _ => exact hdue

/-- The key of the row `[7]`. -/
def keySeven : Key := [2, 128, 0, 0, 0, 0, 0, 0, 7]

lemma encodeRow_seven : encodeRow [.default] [.i32 7] = .ok keySeven := by decide +kernel

lemma unanswered_replicate (n : ℕ) :
    unanswered [.default] [keySeven] false (replicate n [.i32 7]) = n := by
  induction n with
  | zero => rfl
  | succ n ih =>
    have hright : answered [.default] [keySeven] false (replicate n [.i32 7]) [.i32 7] = false := by
      simp [answered, encodeRow_seven]
    rw [replicate_succ, unanswered, hright, ih]
    rfl

/-- A row that is not on the right, after those that are, starts the count anew. -/
lemma not_regular_of_new {n : ℕ} (hn : n + 1 = cancelCheckRows) :
    ¬ Regular ((leftRows [.default] [keySeven] false).reads (fun _ => false)
      (replicate n [.i32 7] ++ [[.i32 8]])) := by
  intro hregular
  have height : encodeRow [.default] [.i32 8] = .ok [2, 128, 0, 0, 0, 0, 0, 0, 8] := by
    decide +kernel
  have hpush : ∀ row ∈ replicate n [Value.i32 7] ++ [[.i32 8]], ∀ s, ∃ s',
      (leftRows [.default] [keySeven] false).push s row = .ok s' := by
    intro row hrow s
    rcases mem_append.mp hrow with hrow | hrow
    · rw [eq_of_mem_replicate hrow]
      exact ⟨_, by simp only [leftRows, encodeRow_seven]; rfl⟩
    · rw [mem_singleton.mp hrow]
      exact ⟨_, by simp only [leftRows, height]; rfl⟩
  have hnew : answered [.default] [keySeven] false (replicate n [.i32 7]) [.i32 8] = true := by
    simp [answered, height, keysOf, encodeRow_seven, Except.toOption, keySeven]
  obtain ⟨j, -, hj, hlook⟩ :=
    (leftRows_follows _ _ _ _).due (Reader.length_reads hpush _) hregular 0
    (by simp [hn])
  obtain hlt | rfl : j < n ∨ j = n := by omega
  · rw [take_append_of_le_length (by rwa [length_replicate]), take_replicate, reverse_replicate,
      min_eq_left hlt] at hlook
    simp only [unanswered_replicate, due, ← hn, Bool.and_eq_true, beq_iff_eq] at hlook
    rw [Nat.mod_eq_of_lt (Nat.succ_lt_succ hlt)] at hlook
    exact absurd hlook.2 (Nat.succ_ne_zero j)
  · rw [take_of_length_le (by simp), reverse_append, reverse_replicate] at hlook
    simp [unanswered, hnew] at hlook

end VaubanDB.Exec
