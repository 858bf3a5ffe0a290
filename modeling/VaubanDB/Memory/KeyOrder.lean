import VaubanDB.Library.Search
import VaubanDB.Types.Compare
import VaubanDB.Storage.Contract

/-!
The key comparator of the in-memory engine (`vauban-storage/src/memory/key_order.rs`).

A key is compared column by column: `NULL` first, then `compare` under the collation of the
column, reversed in a descending column.  The comparison of two prefixes is an instance of
`lexCmp`, and its answers are those of a preorder (`comparePrefix_swap`,
`comparePrefix_trans`), without the assumption that any two keys can be compared.
-/

namespace VaubanDB

/-! ### The comparator -/

structure Column where
  position : ℕ
  descending : Bool
  collation : Collation
  ty : SqlType
  deriving DecidableEq, Repr

structure KeyOrder where
  columns : List Column
  deriving DecidableEq, Repr

/-- The collation of a column: its own, or the default one. -/
def collationOf (info : TypeInfo) : Collation := info.collation.getD Collation.default

/-- Compares two values of one key column, `NULL` first. -/
def compareColumn (a b : Value) (collation : Collation) : SqlResult Ordering :=
  match a, b with
  | .null, .null => .ok .eq
  | .null, _ => .ok .lt
  | _, .null => .ok .gt
  | a, b =>
    match compare a b collation with
    | .error e => .error e
    | .ok (some ordering) => .ok ordering
    | .ok none =>
      let left := variantName a
      let right := variantName b
      corruption s!"compare answered UNKNOWN for two non-NULL values {left} and {right}"

/-- `value` belongs to the family of variants a column of type `ty` holds. -/
def variantMatches (value : Value) (ty : SqlType) : Bool :=
  match value with
  | .null => true
  | .bit _ => ty == .bit
  | .i8 _ | .i16 _ | .i32 _ | .i64 _ =>
    ty == .tinyInt || ty == .smallInt || ty == .int || ty == .bigInt
  | .decimal _ => ty.isExactNumeric
  | .f32 _ | .f64 _ => ty == .float || ty == .real
  | .money _ => ty == .money || ty == .smallMoney
  | .string _ => ty.isString
  | .bytes _ => match ty with | .binary _ | .varBinary _ => true | _ => false
  | .date _ => ty == .date
  | .time _ => match ty with | .time _ => true | _ => false
  | .dateTime _ => ty == .dateTime || ty == .smallDateTime
  | .dateTime2 _ => match ty with | .dateTime2 _ => true | _ => false
  | .dateTimeOffset _ => match ty with | .dateTimeOffset _ => true | _ => false
  | .guid _ => ty == .uniqueIdentifier

/-- The order of one column, reversed when it is descending. -/
def Column.compare (c : Column) (x y : Value) : SqlResult Ordering :=
  match compareColumn x y c.collation with
  | .error e => .error e
  | .ok ordering => .ok (if c.descending then ordering.swap else ordering)

namespace KeyOrder

def column (what : String) (shape : TableShape) (kc : KeyColumn) : SqlResult Column :=
  match shape.columns[kc.column]? with
  | some info => .ok ⟨kc.column, kc.descending, collationOf info, info.ty⟩
  | none =>
    let position := kc.column
    let arity := shape.columns.length
    bug s!"{what} column {position} out of range ({arity} columns)"

def new (what : String) (columns : List KeyColumn) (shape : TableShape) : SqlResult KeyOrder :=
  if columns.isEmpty then bug s!"{what} has no column"
  else (columns.mapM (column what shape)).map KeyOrder.mk

variable (order : KeyOrder)

def extract (row : Row) : SqlResult (List Value) :=
  order.columns.mapM fun c =>
    match row[c.position]? with
    | some v => .ok v
    | none =>
      let arity := row.length
      let position := c.position
      corruption s!"row has {arity} values, key column {position} is out of range"

/-- Compares two keys or prefixes of keys over the columns both have. -/
def comparePrefix (a b : List Value) : SqlResult Ordering :=
  go order.columns a b
where
  /-- The loop over the columns. -/
  go : List Column → List Value → List Value → SqlResult Ordering
    | c :: cs, x :: xs, y :: ys =>
      match c.compare x y with
      | .error e => .error e
      | .ok .eq => go cs xs ys
      | .ok ordering => .ok ordering
    | _, _, _ => .ok .eq

/-- Checks a key or prefix handed by the caller: its length and the variants of its values. -/
def checkPrefix (pre : List Value) : SqlResult Unit :=
  if pre.length > order.columns.length then
    let given := pre.length
    let wanted := order.columns.length
    bug s!"key prefix has {given} values, the key has {wanted} columns"
  else
    match (order.columns.zip pre).find? fun (c, v) => !variantMatches v c.ty with
    | some (_, v) =>
      let variant := variantName v
      bug s!"key value ({variant}) does not match the column type"
    | none => .ok ()

/-- A position out of range in a binary search: it does not happen. -/
def missing (len mid : ℕ) : SqlError :=
  .internal (.corruption s!"binary search index {mid} out of range ({len} items)")

/-- `partition_point` of the source: the library search with its error. -/
def partitionPoint {α : Type} (items : List α) (pred : α → SqlResult Bool) : SqlResult ℕ :=
  BinarySearch.partitionPoint items pred (missing items.length)

/-- Compares two rows by key then by identifier: the first one comes before. -/
def precedes (key : List Value) (id : RowId) (item : List Value × RowId × Row) :
    SqlResult Bool :=
  match order.comparePrefix item.1 key with
  | .error e => .error e
  | .ok .lt => .ok true
  | .ok .eq => .ok (item.2.1 < id)
  | .ok .gt => .ok false

/-- The insertion of one row into the rows sorted so far. -/
def sortStep (sorted : List (List Value × RowId × Row)) (item : RowId × Row) :
    SqlResult (List (List Value × RowId × Row)) := do
  let key ← order.extract item.2
  let pos ← partitionPoint sorted (order.precedes key item.1)
  .ok (sorted.insertIdx pos (key, item.1, item.2))

/-- Sorts rows by key then by identifier, by repeated insertion. -/
def sortRows (rows : List (RowId × Row)) : SqlResult (List (RowId × Row)) := do
  let sorted ← rows.foldlM order.sortStep []
  .ok (sorted.map Prod.snd)

end KeyOrder

/-! ### The order of one column -/

variable {b a : Value}

lemma compareColumn_of_ne_null (ha : a ≠ .null) (hb : b ≠ .null) (c : Collation) :
    compareColumn a b c = (compare a b c).bind fun r => r.elim
      (corruption
        s!"compare answered UNKNOWN for two non-NULL values {variantName a} and {variantName b}")
      .ok := by
  unfold compareColumn
  split
  next => exact absurd rfl ha
  next => exact absurd rfl ha
  next => exact absurd rfl hb
  next =>
    cases compare a b c with
    | error e => rfl
    | ok r => cases r <;> rfl

lemma compareColumn_eq_ok_iff (ha : a ≠ .null) (hb : b ≠ .null) {c : Collation}
    {o : Ordering} : compareColumn a b c = .ok o ↔ compare a b c = .ok (some o) := by
  rw [compareColumn_of_ne_null ha hb]
  cases compare a b c with
  | error e => simp [Except.bind]
  | ok r => cases r <;> simp [Except.bind, corruption]

lemma compareColumn_null_left (hb : b ≠ .null) (c : Collation) :
    compareColumn .null b c = .ok .lt := by
  cases b <;> first | exact absurd rfl hb | rfl

lemma compareColumn_null_right (ha : a ≠ .null) (c : Collation) :
    compareColumn a .null c = .ok .gt := by
  cases a <;> first | exact absurd rfl ha | rfl

/-- Two values of a column are ordered like two values, `NULL` below all of them. -/
lemma compareColumn_lawful (c : Collation) : LawfulCmp fun a b => compareColumn a b c where
  swap := by
    intro a b o hab
    by_cases ha : a = .null
    · subst ha
      by_cases hb : b = .null
      · subst hb
        cases hab
        rfl
      · rw [compareColumn_null_left hb] at hab
        cases hab
        exact compareColumn_null_right hb c
    · by_cases hb : b = .null
      · subst hb
        rw [compareColumn_null_right ha] at hab
        cases hab
        exact compareColumn_null_left ha c
      · rw [compareColumn_eq_ok_iff ha hb] at hab
        rw [compareColumn_eq_ok_iff hb ha]
        exact compare_swap hab
  trans := by
    intro a b d o₁ o₂ hab hbd h₁ h₂
    by_cases hb : b = .null
    · subst hb
      by_cases ha : a = .null
      · subst ha
        cases hab
        exact hbd
      · rw [compareColumn_null_right ha] at hab
        cases hab
        exact absurd rfl h₁
    · have hd : d ≠ .null := by
        rintro rfl
        rw [compareColumn_null_right hb] at hbd
        cases hbd
        exact absurd rfl h₂
      by_cases ha : a = .null
      · subst ha
        rw [compareColumn_null_left hb] at hab
        cases hab
        exact compareColumn_null_left hd c
      · rw [compareColumn_eq_ok_iff ha hb] at hab
        rw [compareColumn_eq_ok_iff hb hd] at hbd
        rw [compareColumn_eq_ok_iff ha hd]
        exact compare_trans hab hbd h₁ h₂

lemma compareColumn_uncorrupted (a b : Value) (c : Collation) :
    Uncorrupted (compareColumn a b c) := by
  by_cases ha : a = .null
  · subst ha
    by_cases hb : b = .null
    · subst hb
      exact .ok _
    · rw [compareColumn_null_left hb]
      exact .ok _
  · by_cases hb : b = .null
    · subst hb
      rw [compareColumn_null_right ha]
      exact .ok _
    · rw [compareColumn_of_ne_null ha hb]
      refine .bind (compare_uncorrupted a b c) fun r hr => ?_
      cases r with
      | some o => exact .ok _
      | none => exact absurd hr (compare_ne_none ha hb)

variable {v : Value}

lemma compareColumn_self {c : Collation} : compareColumn v v c = .ok .eq ↔ v.selfComparable := by
  by_cases hv : v = .null
  · subst hv
    exact ⟨fun _ => rfl, fun _ => rfl⟩
  · rw [compareColumn_eq_ok_iff hv hv, compare_self hv]

namespace Column

variable (c : Column)

lemma compare_lawful : LawfulCmp c.compare := by
  have h := compareColumn_lawful c.collation
  cases hd : c.descending with
  | false =>
    have heq : c.compare = fun a b => compareColumn a b c.collation := by
      funext a b
      simp only [compare, hd]
      cases compareColumn a b c.collation <;> rfl
    rw [heq]
    exact h
  | true =>
    have heq : c.compare = LawfulCmp.reverse fun a b => compareColumn a b c.collation := by
      funext a b
      simp only [compare, hd, LawfulCmp.reverse]
      cases compareColumn a b c.collation <;> rfl
    rw [heq]
    exact h.reversed

lemma compare_uncorrupted (x y : Value) : Uncorrupted (c.compare x y) := by
  intro e h
  rw [compare] at h
  cases hc : compareColumn x y c.collation with
  | error e' =>
    rw [hc] at h
    cases h
    exact compareColumn_uncorrupted x y c.collation e hc
  | ok o => simp [hc] at h

variable {c}

lemma compare_self : c.compare v v = .ok .eq ↔ v.selfComparable := by
  rw [← compareColumn_self (c := c.collation), compare]
  cases compareColumn v v c.collation with
  | error e => simp
  | ok o => cases o <;> cases c.descending <;> simp [Ordering.swap]

end Column

/-! ### Values that fit their column -/

def SqlType.family : SqlType → Family
  | .bit => .bit
  | .tinyInt | .smallInt | .int | .bigInt => .integer
  | .decimal .. | .numeric .. => .decimal
  | .float | .real => .float
  | .money | .smallMoney => .money
  | .char _ | .varChar _ | .nChar _ | .nVarChar _ => .string
  | .binary _ | .varBinary _ => .bytes
  | .date => .date
  | .time _ => .time
  | .dateTime | .smallDateTime => .dateTime
  | .dateTime2 _ => .dateTime2
  | .dateTimeOffset _ => .dateTimeOffset
  | .uniqueIdentifier => .guid

lemma variantMatches_iff {ty : SqlType} :
    variantMatches v ty = true ↔ v = .null ∨ v.family = some ty.family := by
  cases v <;> cases ty <;>
    simp [variantMatches, Value.family, SqlType.family, SqlType.isString, SqlType.isExactNumeric]

def Column.fits (c : Column) (v : Value) : Bool := variantMatches v c.ty && v.selfComparable

lemma Column.compare_total {c : Column} {x y : Value} (hx : c.fits x) (hy : c.fits y) :
    ∃ o, c.compare x y = .ok o := by
  simp only [fits, Bool.and_eq_true, variantMatches_iff] at hx hy
  have hcol : ∃ o, compareColumn x y c.collation = .ok o := by
    by_cases hxn : x = .null
    · subst hxn
      by_cases hyn : y = .null
      · subst hyn
        exact ⟨.eq, rfl⟩
      · exact ⟨.lt, compareColumn_null_left hyn _⟩
    · by_cases hyn : y = .null
      · subst hyn
        exact ⟨.gt, compareColumn_null_right hxn _⟩
      · obtain ⟨hfx, hsx⟩ := hx
        obtain ⟨hfy, hsy⟩ := hy
        simp only [hxn, hyn, false_or] at hfx hfy
        obtain ⟨o, ho⟩ := VaubanDB.compare_total hsx hsy hxn (hfx.trans hfy.symm) c.collation
        exact ⟨o, (compareColumn_eq_ok_iff hxn hyn).mpr ho⟩
  obtain ⟨o, ho⟩ := hcol
  exact ⟨_, by rw [compare, ho]⟩

namespace KeyOrder

variable {order : KeyOrder} {a b k p : List Value} {o : Ordering}

/-! ### The comparison of two keys -/

lemma comparePrefix_eq_lexCmp (order : KeyOrder) (a b : List Value) :
    order.comparePrefix a b = lexCmp (order.columns.map Column.compare) a b := by
  rw [comparePrefix]
  generalize order.columns = cs
  induction cs generalizing a b with
  | nil => simp [comparePrefix.go, lexCmp]
  | cons c cs ih =>
    rcases a with _ | ⟨x, xs⟩
    · simp [comparePrefix.go, lexCmp]
    rcases b with _ | ⟨y, ys⟩
    · simp [comparePrefix.go, lexCmp]
    simp only [comparePrefix.go, List.map_cons, lexCmp, ih]
    cases c.compare x y with
    | error e => rfl
    | ok ordering => cases ordering <;> rfl

lemma columns_lawful (order : KeyOrder) :
    ∀ cmp ∈ order.columns.map Column.compare, LawfulCmp cmp := by
  intro cmp hcmp
  obtain ⟨c, _, rfl⟩ := List.mem_map.mp hcmp
  exact c.compare_lawful

lemma comparePrefix_swap (h : order.comparePrefix a b = .ok o) :
    order.comparePrefix b a = .ok o.swap := by
  rw [comparePrefix_eq_lexCmp] at h ⊢
  exact lexCmp_swap order.columns_lawful h

variable {o₂ o₁ : Ordering}

lemma comparePrefix_trans (hab : a.length = b.length)
    (hbk : b.length = k.length) (h₁ : order.comparePrefix a b = .ok o₁)
    (h₂ : order.comparePrefix b k = .ok o₂) (ho₁ : o₁ ≠ .gt) (ho₂ : o₂ ≠ .gt) :
    order.comparePrefix a k = .ok (o₁.then o₂) := by
  rw [comparePrefix_eq_lexCmp] at h₁ h₂ ⊢
  exact lexCmp_trans order.columns_lawful hab hbk h₁ h₂ ho₁ ho₂

lemma comparePrefix_self (h : ∀ v ∈ k, v.selfComparable) : order.comparePrefix k k = .ok .eq := by
  rw [comparePrefix_eq_lexCmp]
  refine lexCmp_self ?_
  intro cmp hcmp v hv
  obtain ⟨c, _, rfl⟩ := List.mem_map.mp hcmp
  exact Column.compare_self.mpr (h v hv)

lemma comparePrefix_uncorrupted (order : KeyOrder) (a b : List Value) :
    Uncorrupted (order.comparePrefix a b) := by
  intro e h
  rw [comparePrefix_eq_lexCmp] at h
  obtain ⟨cmp, hcmp, x, y, hxy⟩ := lexCmp_error h
  obtain ⟨c, _, rfl⟩ := List.mem_map.mp hcmp
  exact c.compare_uncorrupted x y e hxy

def Holds (ok : Column → Value → Bool) (order : KeyOrder) (key : List Value) : Prop :=
  ∀ (i : ℕ) (c : Column) (v : Value), order.columns[i]? = some c → key[i]? = some v →
    ok c v = true

abbrev Fits (order : KeyOrder) (key : List Value) : Prop := order.Holds Column.fits key

lemma comparePrefix_total (ha : order.Fits a) (hb : order.Fits b) :
    ∃ o, order.comparePrefix a b = .ok o := by
  simp only [comparePrefix_eq_lexCmp]
  refine lexCmp_total ?_
  intro i cmp x y hc hx hy
  rw [List.getElem?_map, Option.map_eq_some_iff] at hc
  obtain ⟨c, hc, rfl⟩ := hc
  exact Column.compare_total (ha i c x hc hx) (hb i c y hc hy)

/-! ### Keys of rows -/

variable {row : Row}

lemma extract_eq_ok_iff : order.extract row = .ok k ↔
    List.Forall₂ (fun c v => row[c.position]? = some v) order.columns k := by
  rw [extract, Except.mapM_eq_ok_iff]
  refine iff_of_eq (congrArg₂ _ ?_ rfl |> congrFun <| k)
  funext c v
  cases row[c.position]? <;> simp [corruption]

lemma length_of_extract (h : order.extract row = .ok k) : k.length = order.columns.length :=
  (extract_eq_ok_iff.mp h).length_eq.symm

lemma extract_isOk (h : ∀ c ∈ order.columns, c.position < row.length) :
    ∃ k, order.extract row = .ok k := by
  cases hx : order.extract row with
  | ok k => exact ⟨k, rfl⟩
  | error e =>
    obtain ⟨c, hc, he⟩ := Except.mapM_eq_error hx
    rw [List.getElem?_eq_getElem (h c hc)] at he
    cases he

def HoldsOn (ok : Column → Value → Bool) (order : KeyOrder) (row : Row) : Prop :=
  ∀ c ∈ order.columns, ∀ v, row[c.position]? = some v → ok c v = true

lemma HoldsOn.holds {ok : Column → Value → Bool} (h : order.HoldsOn ok row)
    (hk : order.extract row = .ok k) : order.Holds ok k := by
  intro i c v hc hv
  obtain ⟨hlen, hall⟩ := List.forall₂_iff_get.mp (extract_eq_ok_iff.mp hk)
  obtain ⟨hi, rfl⟩ := List.getElem?_eq_some_iff.mp hc
  obtain ⟨hi', rfl⟩ := List.getElem?_eq_some_iff.mp hv
  exact h _ (List.getElem_mem hi) _ (hall i hi hi')

variable {columns : List KeyColumn} {shape : TableShape}

lemma new_spec {what : String} (h : new what columns shape = .ok order) :
    List.Forall₂ (fun kc (c : Column) => ∃ info, shape.columns[kc.column]? = some info ∧
      c = ⟨kc.column, kc.descending, collationOf info, info.ty⟩) columns order.columns := by
  rw [new] at h
  split_ifs at h
  · cases h
  · obtain ⟨cs, hcs, rfl⟩ := Except.map_eq_ok_iff.mp h
    refine (Except.mapM_eq_ok_iff.mp hcs).imp ?_
    intro kc c hc
    rw [column] at hc
    cases hi : shape.columns[kc.column]? with
    | none => simp [hi, bug] at hc
    | some info =>
      simp only [hi, Except.ok.injEq] at hc
      exact ⟨info, rfl, hc.symm⟩

lemma new_position_lt {what : String} (h : new what columns shape = .ok order) :
    ∀ c ∈ order.columns, c.position < shape.columns.length := by
  intro c hc
  obtain ⟨kc, _, info, hinfo, rfl⟩ := (new_spec h).exists_of_mem_right hc
  exact (List.getElem?_eq_some_iff.mp hinfo).1

lemma new_uncorrupted (what : String) (columns : List KeyColumn) (shape : TableShape) :
    Uncorrupted (new what columns shape) := by
  rw [new]
  split_ifs
  · exact .bug _
  · refine .map _ (.mapM fun kc _ => ?_)
    rw [column]
    split
    · exact .ok _
    · exact .bug _

/-! ### Prefixes handed by the caller -/

lemma checkPrefix_uncorrupted (order : KeyOrder) (p : List Value) :
    Uncorrupted (order.checkPrefix p) := by
  rw [checkPrefix]
  split_ifs
  · exact .bug _
  · split
    · exact .bug _
    · exact .ok _

lemma checkPrefix_eq_ok (h : order.checkPrefix p = .ok ()) :
    p.length ≤ order.columns.length ∧ ∀ (i : ℕ) (c : Column) (v : Value),
      order.columns[i]? = some c → p[i]? = some v → variantMatches v c.ty = true := by
  rw [checkPrefix] at h
  split_ifs at h with hlen
  · cases h
  · refine ⟨by omega, ?_⟩
    intro i c v hc hv
    cases hfind : (order.columns.zip p).find? fun (c, v) => !variantMatches v c.ty with
    | some cv => simp [hfind, bug] at h
    | none =>
      have hmem : (c, v) ∈ order.columns.zip p := by
        refine List.mem_iff_getElem?.mpr ⟨i, ?_⟩
        rw [List.getElem?_zip_eq_some]
        exact ⟨hc, hv⟩
      simpa using List.find?_eq_none.mp hfind (c, v) hmem

/-! ### The binary search and the sort -/

lemma partitionPoint_uncorrupted {α : Type} {items : List α} {pred : α → SqlResult Bool}
    (h : ∀ x ∈ items, Uncorrupted (pred x)) : Uncorrupted (partitionPoint items pred) := by
  intro e he
  obtain ⟨x, hx, hpx⟩ := BinarySearch.partitionPoint_error he
  exact h x hx e hpx

lemma precedes_uncorrupted (order : KeyOrder) (key : List Value) (id : RowId)
    (item : List Value × RowId × Row) : Uncorrupted (order.precedes key id item) := by
  intro e h
  rw [precedes] at h
  cases hc : order.comparePrefix item.1 key with
  | error e' =>
    simp only [hc, Except.error.injEq] at h
    exact h ▸ comparePrefix_uncorrupted order _ _ e' hc
  | ok o => cases o <;> simp [hc] at h

variable {rows : List (RowId × Row)}

lemma sortRows_perm {out : List (RowId × Row)} (h : order.sortRows rows = .ok out) :
    out.Perm rows := by
  have hfold : ∀ (rows : List (RowId × Row)) acc out, rows.foldlM order.sortStep acc = .ok out →
      (out.map Prod.snd).Perm (acc.map Prod.snd ++ rows) := by
    intro rows
    induction rows with
    | nil =>
      intro acc out h
      cases h
      simp
    | cons item rows ih =>
      intro acc out h
      rw [List.foldlM_cons] at h
      obtain ⟨acc', hstep, h⟩ := Except.bind_eq_ok_iff.mp h
      obtain ⟨key, _, hstep⟩ := Except.bind_eq_ok_iff.mp hstep
      obtain ⟨pos, hpos, hstep⟩ := Except.bind_eq_ok_iff.mp hstep
      cases hstep
      have hle := (BinarySearch.partitionPoint_spec hpos).1
      refine (ih _ _ h).trans ?_
      have hins := (List.perm_insertIdx (key, item.1, item.2) acc hle).map Prod.snd
      refine (hins.append_right rows).trans ?_
      simpa using List.perm_middle.symm
  rw [sortRows] at h
  obtain ⟨sorted, hs, h⟩ := Except.bind_eq_ok_iff.mp h
  cases h
  simpa using hfold rows [] sorted hs

lemma sortRows_uncorrupted
    (h : ∀ r ∈ rows, ∃ k, order.extract r.2 = .ok k) : Uncorrupted (order.sortRows rows) := by
  refine .bind (.foldlM (P := fun _ => True) trivial ?_ fun _ _ _ _ _ _ => trivial) fun _ _ => .ok _
  intro sorted _ item hitem
  obtain ⟨k, hk⟩ := h item hitem
  refine .bind (hk ▸ .ok _) fun key _ => .bind ?_ fun _ _ => .ok _
  exact partitionPoint_uncorrupted fun x _ => order.precedes_uncorrupted _ _ x

end KeyOrder

end VaubanDB
