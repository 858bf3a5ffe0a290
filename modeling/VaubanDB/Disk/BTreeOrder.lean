import VaubanDB.Disk.BTreePage
import VaubanDB.Disk.Encode
import VaubanDB.Memory.KeyOrder

/-!
The order of a B+tree (`vauban-storage/src/disk/btree.rs`, the tree layer).

An entry is a key and a payload, written as one row (`encodeEntryKey`).  A probe stands at an entry,
or before or after all the entries whose key begins with some values.  Along `EntryLt`, the order of
the entries, the answers of a probe go up, so that a probe cuts a list of entries in two, and the
binary searches of a page find the cut (`pagePosition_spec`).
-/

namespace VaubanDB

namespace BTree

/-! ### Keys -/

structure OrderColumn where
  descending : Bool
  collation : Collation
  deriving DecidableEq, Repr

/-- The order the keys of one tree follow. -/
structure KeyOrder where
  columns : List OrderColumn
  deriving DecidableEq, Repr

/-- Compares one column of two keys, `NULL` first. -/
def compareColumn (a b : Value) (collation : Collation) : Except InternalError Ordering :=
  match a, b with
  | .null, .null => .ok .eq
  | .null, _ => .ok .lt
  | _, .null => .ok .gt
  | a, b =>
    match compare a b collation with
    | .error _ => .error (.bug "comparing two key values of a B+tree")
    | .ok (some ordering) => .ok ordering
    | .ok none =>
      let left := variantName a
      let right := variantName b
      .error (.corruption
        s!"comparing the non-NULL key values {left} and {right} answered UNKNOWN")

/-- The order of one column, reversed when it is descending. -/
def OrderColumn.compare (c : OrderColumn) (x y : Value) : Except InternalError Ordering :=
  match compareColumn x y c.collation with
  | .error e => .error e
  | .ok ordering => .ok (if c.descending then ordering.swap else ordering)

namespace KeyOrder

def column (types : List TypeInfo) (kc : KeyColumn) : Except InternalError OrderColumn :=
  match types[kc.column]? with
  | some info => .ok ⟨kc.descending, collationOf info⟩
  | none =>
    let position := kc.column
    let count := types.length
    .error (.bug s!"key column {position} is outside the {count} columns of the table")

/-- Builds the order of a key over a table whose columns have the types `types`. -/
def new (columns : List KeyColumn) (types : List TypeInfo) : Except InternalError KeyOrder :=
  if columns.isEmpty then .error (.bug "a B+tree key has no column")
  else (columns.mapM (column types)).map KeyOrder.mk

variable (order : KeyOrder)

def arity : ℕ := order.columns.length

/-- Compares two keys, or a key and a prefix of one, over the columns both have. -/
def comparePrefix (a b : List Value) : Except InternalError Ordering :=
  lexCmp (order.columns.map OrderColumn.compare) a b

def checkKey (key : List Value) : Except InternalError Unit :=
  if key.length ≠ order.arity then
    let given := key.length
    let wanted := order.arity
    .error (.bug s!"a B+tree entry carries {given} values, the key has {wanted} columns")
  else .ok ()

/-- Refuses a bound that carries more values than the key has columns. -/
def checkPrefix (values : List Value) : Except InternalError Unit :=
  if values.length > order.arity then
    let given := values.length
    let wanted := order.arity
    .error (.bug s!"a key bound carries {given} values, the key has {wanted} columns")
  else .ok ()

end KeyOrder

/-! ### Entries and probes -/

/-- One entry of a tree as its caller reads it: the values of the key and the payload. -/
abbrev TreeEntry := List Value × List UInt8

/-- The bytes a page holds for an entry: the values of the key and the payload, as one row. -/
def encodeEntryKey (e : TreeEntry) : List UInt8 := encodeRow (e.1 ++ [.bytes e.2])

def decodeEntryKey (bytes : List UInt8) : Except InternalError TreeEntry := do
  let values ← decodeRow bytes
  match values.getLast? with
  | some (.bytes payload) => .ok (values.dropLast, payload)
  | _ =>
    .error (.corruption "a B+tree entry ends with another value where its payload was expected")

/-- Where a search sits among the entries that share the values it carries. -/
inductive PayloadBound where
  | lowest
  | at (payload : List UInt8)
  | highest
  deriving DecidableEq, Repr

/-- What a search compares an entry with. -/
structure Probe where
  values : List Value
  payload : PayloadBound
  deriving DecidableEq, Repr

def comparePayload (a b : List UInt8) : Ordering := List.compareLex Ord.compare a b

/-- Where an entry of the same values stands beside a probe. -/
def PayloadBound.side (payload : List UInt8) : PayloadBound → Ordering
  | .lowest => .gt
  | .at bound => comparePayload payload bound
  | .highest => .lt

/-- Compares one entry of a page with a probe: the key first, the payload after it. -/
def compareEntry (order : KeyOrder) (entry : TreeEntry) (probe : Probe) :
    Except InternalError Ordering :=
  match order.comparePrefix entry.1 probe.values with
  | .error e => .error e
  | .ok .eq => .ok (probe.payload.side entry.2)
  | .ok ordering => .ok ordering

def probeAt (e : TreeEntry) : Probe := ⟨e.1, .at e.2⟩

/-- The probe that names the entry a separator was copied from. -/
def probeOf (separator : List UInt8) : Except InternalError Probe := do
  let entry ← decodeEntryKey separator
  .ok (probeAt entry)

def missing (index : ℕ) : InternalError := .bug s!"slot {index} was asked for"

/-- The binary search of a page for the first entry on which `before` is false. -/
def pagePosition (directory : ℕ) (before : Ordering → Bool) (order : KeyOrder) (probe : Probe)
    (page : TreePage) : Except InternalError ℕ :=
  BinarySearch.partitionPoint (List.range page.slots.length) (fun index => do
    let bytes ← page.entryAt directory index
    let entry ← decodeEntryKey bytes.1
    let ordering ← compareEntry order entry probe
    .ok (before ordering)) missing

/-- The index of the first entry of a leaf at or past the probe. -/
def leafPosition (order : KeyOrder) (probe : Probe) (page : TreePage) : Except InternalError ℕ :=
  pagePosition leafDirectory (· = .lt) order probe page

def internalPosition (order : KeyOrder) (probe : Probe) (page : TreePage) :
    Except InternalError ℕ :=
  pagePosition internalDirectory (· ≠ .gt) order probe page

/-! ### The comparison of two keys -/

variable {o : Ordering}

lemma compareColumn_eq_ok_iff {a b : Value} {c : Collation} :
    compareColumn a b c = .ok o ↔ VaubanDB.compareColumn a b c = .ok o := by
  by_cases ha : a = .null
  · subst ha
    by_cases hb : b = .null
    · subst hb
      simp [compareColumn, VaubanDB.compareColumn]
    · rw [VaubanDB.compareColumn_null_left hb]
      cases b <;> first | exact absurd rfl hb | simp [compareColumn]
  · by_cases hb : b = .null
    · subst hb
      rw [VaubanDB.compareColumn_null_right ha]
      cases a <;> first | exact absurd rfl ha | simp [compareColumn]
    · rw [VaubanDB.compareColumn_eq_ok_iff ha hb]
      unfold compareColumn
      split
      next => exact absurd rfl ha
      next => exact absurd rfl ha
      next => exact absurd rfl hb
      next =>
        cases compare a b c with
        | error e => simp
        | ok r => cases r <;> simp

lemma OrderColumn.compare_eq_ok_iff {c : OrderColumn} {x y : Value} (p : ℕ)
    (ty : SqlType) : c.compare x y = .ok o ↔
      (⟨p, c.descending, c.collation, ty⟩ : Column).compare x y = .ok o := by
  rw [compare, Column.compare]
  cases h : compareColumn x y c.collation with
  | ok q =>
    rw [compareColumn_eq_ok_iff.mp h]
    simp
  | error e =>
    cases h' : VaubanDB.compareColumn x y c.collation with
    | error e' => simp
    | ok q =>
      rw [compareColumn_eq_ok_iff.mpr h'] at h
      cases h

lemma OrderColumn.compare_lawful (c : OrderColumn) : LawfulCmp c.compare where
  swap := by
    intro a b o h
    rw [c.compare_eq_ok_iff 0 .bit] at h ⊢
    exact (Column.compare_lawful _).swap h
  trans := by
    intro a b d o₁ o₂ hab hbd h₁ h₂
    rw [c.compare_eq_ok_iff 0 .bit] at hab hbd ⊢
    exact (Column.compare_lawful _).trans hab hbd h₁ h₂

namespace KeyOrder

variable (order : KeyOrder)

lemma columns_lawful : ∀ cmp ∈ order.columns.map OrderColumn.compare, LawfulCmp cmp := by
  intro cmp hcmp
  obtain ⟨c, _, rfl⟩ := List.mem_map.mp hcmp
  exact c.compare_lawful

end KeyOrder

/-! ### The order of the entries -/

instance : Std.TransCmp comparePayload :=
  inferInstanceAs (Std.TransCmp (List.compareLex (Ord.compare : UInt8 → UInt8 → Ordering)))

instance : Std.LawfulEqCmp comparePayload :=
  inferInstanceAs (Std.LawfulEqCmp (List.compareLex (Ord.compare : UInt8 → UInt8 → Ordering)))

structure EntryLt (order : KeyOrder) (e f : TreeEntry) : Prop where
  widthLeft : e.1.length = order.arity
  widthRight : f.1.length = order.arity
  lt : compareEntry order e (probeAt f) = .ok .lt

/-- A probe that stands at one payload carries a whole key, another one a prefix. -/
structure Probe.Fits (order : KeyOrder) (probe : Probe) : Prop where
  width : probe.values.length ≤ order.arity
  whole : ∀ payload, probe.payload = .at payload → probe.values.length = order.arity

variable {order : KeyOrder} {probe : Probe} {e : TreeEntry}

lemma compareEntry_eq_ok : compareEntry order e probe = .ok o ↔
      (order.comparePrefix e.1 probe.values = .ok o ∧ o ≠ .eq) ∨
      (order.comparePrefix e.1 probe.values = .ok .eq ∧ probe.payload.side e.2 = o) := by
  rw [compareEntry]
  cases h : order.comparePrefix e.1 probe.values with
  | error e => simp
  | ok p => cases p <;> cases o <;> simp

namespace EntryLt

variable {order : KeyOrder} {e f g : TreeEntry} {probe : Probe} {o : Ordering}

variable (h : EntryLt order e f)
include h

lemma key_le : ∃ o, order.comparePrefix e.1 f.1 = .ok o ∧ o ≠ .gt ∧
      (o = .eq → comparePayload e.2 f.2 = .lt) := by
  rcases compareEntry_eq_ok.mp h.lt with ⟨hlt, _⟩ | ⟨heq, hpay⟩
  · exact ⟨.lt, hlt, by decide, by simp⟩
  · exact ⟨.eq, heq, by decide, fun _ => hpay⟩

lemma side_left (hp : probe.Fits order) (hf : compareEntry order f probe = .ok o) (ho : o ≠ .gt) :
    compareEntry order e probe = .ok .lt := by
  obtain ⟨o₁, h₁, hne₁, hpay₁⟩ := h.key_le
  have hwidth : e.1.length = f.1.length := h.widthLeft.trans h.widthRight.symm
  have hpf : probe.values.length ≤ f.1.length := by
    rw [h.widthRight]
    exact hp.width
  rcases compareEntry_eq_ok.mp hf with ⟨hf, hne⟩ | ⟨hf, hside⟩
  · have holt : o = .lt := by cases o <;> simp_all
    subst holt
    obtain ⟨o', ho', _, hres⟩ :=
      lexCmp_le_of_le order.columns_lawful hwidth hpf h₁ hne₁ hf (by decide)
    rw [hres rfl] at ho'
    exact compareEntry_eq_ok.mpr (.inl ⟨ho', by decide⟩)
  · obtain ⟨o', ho', hne', _⟩ :=
      lexCmp_le_of_le order.columns_lawful hwidth hpf h₁ hne₁ hf (by decide)
    cases o' with
    | gt => exact absurd rfl hne'
    | lt => exact compareEntry_eq_ok.mpr (.inl ⟨ho', by decide⟩)
    | eq =>
      refine compareEntry_eq_ok.mpr (.inr ⟨ho', ?_⟩)
      cases hpay : probe.payload with
      | lowest =>
        rw [hpay] at hside
        exact absurd hside.symm ho
      | highest => rfl
      | «at» payload =>
        -- The probe carries a whole key, so the two entries have its key.
        have hwhole := hp.whole payload hpay
        have hef : order.comparePrefix e.1 f.1 = .ok .eq := by
          have hfp := lexCmp_swap order.columns_lawful hf
          exact lexCmp_trans order.columns_lawful (h.widthLeft.trans hwhole.symm)
            (hwhole.trans h.widthRight.symm) ho' hfp (by decide) (by decide)
        cases hef.symm.trans h₁
        rw [hpay] at hside
        change comparePayload f.2 payload = o at hside
        change comparePayload e.2 payload = .lt
        have hle : (comparePayload f.2 payload).isLE := by
          rw [hside]
          cases o <;> simp_all
        exact Std.TransCmp.lt_of_lt_of_isLE (hpay₁ rfl) hle

lemma side_right (hp : probe.Fits order) (he : compareEntry order e probe = .ok o) (ho : o ≠ .lt) :
    compareEntry order f probe = .ok .gt := by
  -- `f` is compared as well, and were it not past the probe, `e` would be before it
  obtain ⟨o₁, h₁, hne₁, _⟩ := h.key_le
  have hpe : probe.values.length ≤ e.1.length := by
    rw [h.widthLeft]
    exact hp.width
  have hkey : ∃ o', order.comparePrefix e.1 probe.values = .ok o' ∧ o' ≠ .lt := by
    rcases compareEntry_eq_ok.mp he with ⟨he, _⟩ | ⟨he, _⟩
    · exact ⟨o, he, ho⟩
    · exact ⟨.eq, he, by decide⟩
  obtain ⟨o', ho', hne'⟩ := hkey
  obtain ⟨o₂, ho₂, _, _⟩ := lexCmp_ge_of_ge order.columns_lawful
    (h.widthLeft.trans h.widthRight.symm) hpe h₁ hne₁ ho' hne'
  obtain ⟨o₃, ho₃⟩ : ∃ o₃, compareEntry order f probe = .ok o₃ := by
    by_cases heq : o₂ = .eq
    · subst heq
      exact ⟨_, compareEntry_eq_ok.mpr (.inr ⟨ho₂, rfl⟩)⟩
    · exact ⟨o₂, compareEntry_eq_ok.mpr (.inl ⟨ho₂, heq⟩)⟩
  by_cases hgt : o₃ = .gt
  · rw [ho₃, hgt]
  · rw [h.side_left hp ho₃ hgt] at he
    cases he
    exact absurd rfl ho

lemma fits_right : (probeAt f).Fits order :=
  ⟨h.widthRight.le, fun _ _ => h.widthRight⟩

omit h

lemma trans (hef : EntryLt order e f) (hfg : EntryLt order f g) : EntryLt order e g :=
  ⟨hef.widthLeft, hfg.widthRight, hef.side_left hfg.fits_right hfg.lt (by decide)⟩

lemma irrefl : ¬ EntryLt order e e := by
  intro h
  rcases compareEntry_eq_ok.mp h.lt with ⟨hlt, _⟩ | ⟨_, hpay⟩
  · have hgt := lexCmp_swap order.columns_lawful hlt
    change lexCmp _ _ _ = _ at hlt
    rw [show (probeAt e).values = e.1 from rfl] at hlt hgt
    cases hlt.symm.trans hgt
  · have heq : comparePayload e.2 e.2 = .eq := Std.ReflCmp.compare_self
    change comparePayload e.2 e.2 = .lt at hpay
    cases heq.symm.trans hpay

lemma asymm (hef : EntryLt order e f) : ¬ EntryLt order f e := fun hfe => irrefl (hef.trans hfe)

lemma ne (hef : EntryLt order e f) : e ≠ f := by
  rintro rfl
  exact irrefl hef

lemma gt (h : EntryLt order e f) : compareEntry order f (probeAt e) = .ok .gt := by
  rcases compareEntry_eq_ok.mp h.lt with ⟨hlt, _⟩ | ⟨heq, hpay⟩
  · exact compareEntry_eq_ok.mpr (.inl ⟨lexCmp_swap order.columns_lawful hlt, by decide⟩)
  · refine compareEntry_eq_ok.mpr (.inr ⟨lexCmp_swap order.columns_lawful heq, ?_⟩)
    change comparePayload e.2 f.2 = .lt at hpay
    change comparePayload f.2 e.2 = .gt
    rw [swap_of_transCmp comparePayload e.2 f.2, hpay]
    rfl

lemma of_gt (he : e.1.length = order.arity) (hf : f.1.length = order.arity)
    (h : compareEntry order f (probeAt e) = .ok .gt) : EntryLt order e f := by
  refine ⟨he, hf, ?_⟩
  rcases compareEntry_eq_ok.mp h with ⟨hgt, _⟩ | ⟨heq, hpay⟩
  · exact compareEntry_eq_ok.mpr (.inl ⟨lexCmp_swap order.columns_lawful hgt, by decide⟩)
  · refine compareEntry_eq_ok.mpr (.inr ⟨lexCmp_swap order.columns_lawful heq, ?_⟩)
    change comparePayload f.2 e.2 = .gt at hpay
    change comparePayload e.2 f.2 = .lt
    rw [swap_of_transCmp comparePayload f.2 e.2, hpay]
    rfl

end EntryLt

/-! ### The binary searches of a page -/

lemma decodeEntryKey_encodeEntryKey (h : (encodeEntryKey e).length < 2 ^ 32) :
    decodeEntryKey (encodeEntryKey e) = .ok e := by
  rw [decodeEntryKey, encodeEntryKey, decodeRow_encodeRow h]
  simp [bind, Except.bind]

lemma pagePosition_spec {directory : ℕ} {before : Ordering → Bool}
    {page : TreePage} (hlaid : Laid directory page) {es fs : List TreeEntry}
    (hentries : page.entries.map Prod.fst = (es ++ fs).map encodeEntryKey)
    (hsize : ∀ e ∈ es ++ fs, (encodeEntryKey e).length < 2 ^ 32)
    (hes : ∀ e ∈ es, ∃ o, compareEntry order e probe = .ok o ∧ before o = true)
    (hfs : ∀ e ∈ fs, ∃ o, compareEntry order e probe = .ok o ∧ before o = false) :
    pagePosition directory before order probe page = .ok es.length := by
  have hlen : page.slots.length = (es ++ fs).length := by
    have h := congrArg List.length hentries
    simpa using h
  have hpred : ∀ (i : ℕ) (e : TreeEntry) (b : Bool), (es ++ fs)[i]? = some e →
      (∃ o, compareEntry order e probe = .ok o ∧ before o = b) → (do
        let bytes ← page.entryAt directory i
        let entry ← decodeEntryKey bytes.1
        let ordering ← compareEntry order entry probe
        (.ok (before ordering) : Except InternalError Bool)) = .ok b := by
    rintro i e b hi ⟨o, ho, hb⟩
    have hkey : (page.entries.map Prod.fst)[i]? = some (encodeEntryKey e) := by
      rw [hentries, List.getElem?_map, hi]
      rfl
    rw [List.getElem?_map, Option.map_eq_some_iff] at hkey
    obtain ⟨bytes, hbytes, hfst⟩ := hkey
    have hdecode := decodeEntryKey_encodeEntryKey (hsize e (List.mem_of_getElem? hi))
    simp [hlaid.entryAt hbytes, hfst, hdecode, ho, hb, bind, Except.bind]
  refine BinarySearch.partitionPoint_eq (by simp [hlen]) ?_ ?_
  · intro i x hi hx
    obtain ⟨hlt, rfl⟩ := List.getElem?_eq_some_iff.mp hx
    rw [List.getElem_range]
    have hget : (es ++ fs)[i]? = some es[i] := by
      rw [List.getElem?_append_left hi, List.getElem?_eq_getElem hi]
    exact hpred i _ true hget (hes _ (List.getElem_mem hi))
  · intro i x hi hx
    obtain ⟨hlt, rfl⟩ := List.getElem?_eq_some_iff.mp hx
    rw [List.getElem_range]
    have hi' : i - es.length < fs.length := by
      rw [List.length_range, hlen, List.length_append] at hlt
      omega
    have hget : (es ++ fs)[i]? = some fs[i - es.length] := by
      rw [List.getElem?_append_right hi, List.getElem?_eq_getElem hi']
    exact hpred i _ false hget (hfs _ (List.getElem_mem hi'))

/-- The entries a probe finds before it, then the others: `before` is true of a first segment. -/
lemma exists_cut (before : Ordering → Bool)
    (hp : probe.Fits order) {l : List TreeEntry} (hl : l.Pairwise (EntryLt order))
    (hall : ∀ e ∈ l, ∃ o, compareEntry order e probe = .ok o)
    (hlt : before .lt = true) (hgt : before .gt = false) : ∃ es fs, l = es ++ fs ∧
      (∀ e ∈ es, ∃ o, compareEntry order e probe = .ok o ∧ before o = true) ∧
      (∀ e ∈ fs, ∃ o, compareEntry order e probe = .ok o ∧ before o = false) := by
  induction l with
  | nil => exact ⟨[], [], rfl, by simp, by simp⟩
  | cons e l ih =>
    obtain ⟨he, hl⟩ := List.pairwise_cons.mp hl
    obtain ⟨o, ho⟩ := hall e (by simp)
    cases hb : before o with
    | true =>
      obtain ⟨es, fs, rfl, hes, hfs⟩ := ih hl fun f hf => hall f (by simp [hf])
      refine ⟨e :: es, fs, rfl, ?_, hfs⟩
      intro f hf
      rcases List.mem_cons.mp hf with rfl | hf
      · exact ⟨o, ho, hb⟩
      · exact hes f hf
    | false =>
      have hne : o ≠ .lt := by
        rintro rfl
        cases hlt.symm.trans hb
      refine ⟨[], e :: l, rfl, by simp, ?_⟩
      intro f hf
      rcases List.mem_cons.mp hf with rfl | hf
      · exact ⟨o, ho, hb⟩
      · exact ⟨.gt, (he f hf).side_right hp ho hne, hgt⟩

end BTree

end VaubanDB
