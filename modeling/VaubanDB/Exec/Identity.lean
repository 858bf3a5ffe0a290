import VaubanDB.Types.Arith
import VaubanDB.Storage.Contract

/-!
The values of an `IDENTITY` column (`vauban-executor/src/dml/insert.rs`,
`vauban-catalog/src/identity.rs`).

The counter of a table runs in 64 bits and reaches the `INSERT` as a `decimal(38, 0)`, which a cast
narrows to the column.  The value of a row that is stored is the one handed out to its `INSERT`
exactly when the column has that value (`identities_in_range_are_stored`); the cast wraps the
others around (`narrow_identity_is_stored_twice`).
-/

namespace VaubanDB.Exec

open List EStateM

/-- The property of an identity column. -/
structure IdentitySpec where
  /-- The first value handed out. -/
  seed : Int64
  increment : Int64

/-- A row, around the value of its identity column. -/
abbrev IdentityRow := Row × Value × Row

/-- A table with an identity column. -/
structure IdentityTable where
  id : Int32
  /-- The values written to the counter, the newest first. -/
  counter : List Int64
  rows : List IdentityRow
  deriving DecidableEq

/-- The value that follows the last one the caller sees, the seed where it sees none. -/
def handOut (spec : IdentitySpec) (table : Int32) : Option Int64 → SqlResult Int64
  | none => .ok spec.seed
  | some last =>
    match checked (last.toInt + spec.increment.toInt) with
    | some next => .ok (.ofInt next)
    | none => bug ("next_identity: the identity counter of object id " ++ toString table ++
        " passed the range of a bigint")

/-- The casts keep the low bits. -/
def identityValue (dec : Decimal) : SqlType → SqlResult Value
  | .tinyInt => .ok (.i8 (.ofBitVec (dec.mantissa.setWidth 8)))
  | .smallInt => .ok (.i16 (.ofBitVec (dec.mantissa.setWidth 16)))
  | .int => .ok (.i32 (.ofBitVec (dec.mantissa.setWidth 32)))
  | .bigInt => .ok (.i64 (.ofBitVec (dec.mantissa.setWidth 64)))
  | _ => bug "INSERT: IDENTITY on an unsupported type"

/-- What an `INSERT` makes of the columns around the identity column of a row, and what it sees of
the counter. -/
structure Insert where
  /-- The conversion of the values given, and the columns before the identity column. -/
  before : SqlResult Row
  /-- The value of the counter in the snapshot of the caller, which need not be the newest. -/
  seen : List Int64 → SqlResult (Option Int64)
  /-- What the storage answers to the write of the counter. -/
  counted : SqlResult Unit
  /-- The other columns, the constraints, and what the keys of the table say to one more row. -/
  complete : List IdentityRow → Row → Value → SqlResult (Row × Row)

variable (spec : IdentitySpec) (ty : SqlType)

/-- The value handed out to an `INSERT`. -/
def Insert.handed (stmt : Insert) (t : IdentityTable) : SqlResult Int64 := do
  handOut spec t.id (← stmt.seen t.counter)

/-- The counter is written in a transaction of its own, which nothing takes back. -/
def nextIdentity (stmt : Insert) : EStateM SqlError IdentityTable Decimal := do
  let value ← stmt.handed spec (← get)
  stmt.counted
  modify fun t => { t with counter := value :: t.counter }
  return ⟨.ofInt 128 value.toInt, 38, 0⟩

/-- `write_one`, for a row that gives no value to the identity column. -/
def writeOne (stmt : Insert) : EStateM SqlError IdentityTable Unit := do
  let before ← stmt.before
  let value ← identityValue (← nextIdentity spec stmt) ty
  let (before, after) ← stmt.complete (← get).rows before value
  modify fun t => { t with rows := t.rows ++ [(before, value, after)] }

/-- Rows inserted one after the other; one that is refused is not stored. -/
def insertAll (stmts : List Insert) (t : IdentityTable) : IdentityTable :=
  stmts.foldl (fun t stmt => (writeOne spec ty stmt t).state) t

/-- The values handed out to the `INSERT`s that store a row, in their order. -/
def handedOut : List Insert → IdentityTable → List Int64
  | [], _ => []
  | stmt :: stmts, t =>
    match stmt.handed spec t, writeOne spec ty stmt t with
    | .ok v, .ok _ t' => v :: handedOut stmts t'
    | _, res => handedOut stmts res.state

variable {spec ty} {t t' : IdentityTable} {v : Int64} {value : Value} {stmt : Insert} {lo hi : ℤ}

/-! ### The narrowing -/

lemma setWidth_ofInt {w : ℕ} (hw : w ≤ 128) (z : ℤ) :
    (BitVec.ofInt 128 z).setWidth w = BitVec.ofInt w z := by
  refine BitVec.eq_of_toNat_eq (Int.ofNat.inj ?_)
  simp [-Nat.reducePow, -Int.reducePow, Int.emod_nonneg, Int.emod_emod_of_dvd z (pow_dvd_pow 2 hw)]

/-- The casts are exact on the values of the type. -/
lemma identityValue_count (hty : ty.range = some (1, lo, hi)) (hlo : lo ≤ v.toInt)
    (hhi : v.toInt < hi) (h : identityValue ⟨.ofInt 128 v.toInt, 38, 0⟩ ty = .ok value) :
    value.count = some (1, v.toInt) := by
  cases ty <;> cases hty <;> cases h <;> rw [setWidth_ofInt (by decide)]
  case tinyInt =>
    refine congrArg (fun z => some (1, z)) ?_
    simp
    omega
  case smallInt => exact congrArg (fun z => some (1, z)) (Int16.toInt_ofInt_of_le hlo hhi)
  case int => exact congrArg (fun z => some (1, z)) (Int32.toInt_ofInt_of_le hlo hhi)
  case bigInt => exact congrArg (fun z => some (1, z)) (Int64.toInt_ofInt_of_le hlo hhi)

/-- The casts land in the range of the type. -/
lemma identityValue_mem_range {z : ℤ} {dec : Decimal} (hty : ty.range = some (1, lo, hi))
    (h : identityValue dec ty = .ok value) (hz : value.count = some (1, z)) : lo ≤ z ∧ z < hi := by
  cases ty <;> cases hty <;> cases h <;> cases hz
  case tinyInt => exact ⟨Int.natCast_nonneg _, by exact_mod_cast UInt8.toNat_lt _⟩
  case smallInt => exact ⟨Int16.le_toInt _, Int16.toInt_lt _⟩
  case int => exact ⟨Int32.le_toInt _, Int32.toInt_lt _⟩
  case bigInt => exact ⟨Int64.le_toInt _, Int64.toInt_lt _⟩

/-- The value of the row is the one handed out exactly when the column has it. -/
def Kept (lo hi : ℤ) (v : Int64) (row : IdentityRow) : Prop :=
  row.2.1.count = some (1, v.toInt) ↔ lo ≤ v.toInt ∧ v.toInt < hi

lemma kept_identityValue {before after : Row} (hty : ty.range = some (1, lo, hi))
    (h : identityValue ⟨.ofInt 128 v.toInt, 38, 0⟩ ty = .ok value) :
    Kept lo hi v (before, value, after) :=
  ⟨identityValue_mem_range hty h, fun hv => identityValue_count hty hv.1 hv.2 h⟩

lemma exists_identityValue (hty : ty.range = some (1, lo, hi)) (dec : Decimal) :
    ∃ value, identityValue dec ty = .ok value := by
  cases ty <;> cases hty <;> exact ⟨_, rfl⟩

/-! ### One row -/

/-- A row that is stored has the value handed out to it, narrowed; one that is refused may have
used one up. -/
lemma writeOne_spec (stmt : Insert) : Ends t (writeOne spec ty stmt)
    (fun _ t' => ∃ v value before after, stmt.handed spec t = .ok v ∧
      identityValue ⟨.ofInt 128 v.toInt, 38, 0⟩ ty = .ok value ∧
      t'.rows = t.rows ++ [(before, value, after)])
    fun t' => t'.rows = t.rows := by
  simp only [writeOne, nextIdentity, bind_assoc, pure_bind]
  refine Ends.lift_bind rfl fun before _ => ?_
  refine ends_get_bind.mpr (Ends.lift_bind rfl fun v hv => Ends.lift_bind rfl fun _ _ => ?_)
  -- from here on the value is used up
  refine ends_modify_bind.mpr (Ends.lift_bind rfl fun value hvalue => ends_get_bind.mpr ?_)
  refine Ends.lift_bind rfl fun row _ => ?_
  exact ⟨v, value, row.1, row.2, hv, hvalue, rfl⟩

/-- No value is refused for the column's sake: the `INSERT` stores the row as soon as the rest of it
goes through. -/
lemma writeOne_of_complete {before before' after : Row} (hbefore : stmt.before = .ok before)
    (hv : stmt.handed spec t = .ok v) (hcounted : stmt.counted = .ok ())
    (hvalue : identityValue ⟨.ofInt 128 v.toInt, 38, 0⟩ ty = .ok value)
    (hrow : stmt.complete t.rows before value = .ok (before', after)) :
    writeOne spec ty stmt t =
      .ok () { t with counter := v :: t.counter, rows := t.rows ++ [(before', value, after)] } := by
  simp only [writeOne, nextIdentity, bind_assoc, pure_bind]
  rw [hbefore, hcounted]
  refine (liftExcept_ok_bind_apply before _ t).trans ((get_bind_apply _ t).trans ?_)
  rw [hv]
  refine (liftExcept_ok_bind_apply v _ t).trans ((liftExcept_ok_bind_apply () _ t).trans ?_)
  refine (modify_bind_apply _ _ t).trans ?_
  rw [hvalue]
  refine (liftExcept_ok_bind_apply value _ _).trans ((get_bind_apply _ _).trans ?_)
  rw [hrow]
  rfl

/-! ### Any number of rows -/

lemma handedOut_spec (hty : ty.range = some (1, lo, hi)) (stmts : List Insert) (t : IdentityTable) :
    ∃ rows, (insertAll spec ty stmts t).rows = t.rows ++ rows ∧
      Forall₂ (Kept lo hi) (handedOut spec ty stmts t) rows := by
  induction stmts generalizing t with
  | nil => exact ⟨[], (append_nil _).symm, .nil⟩
  | cons stmt stmts ih =>
    have hone : Ends t (writeOne spec ty stmt) _ _ := writeOne_spec stmt
    obtain ⟨rows, hrows, hkept⟩ := ih (writeOne spec ty stmt t).state
    rw [Ends] at hone
    cases hres : writeOne spec ty stmt t with
    | ok _ t' =>
      rw [hres] at hone hrows hkept
      obtain ⟨v, value, before, after, hv, hvalue, ht'⟩ := hone
      refine ⟨(before, value, after) :: rows, ?_, ?_⟩
      · simpa [insertAll, hres, ht'] using hrows
      · simpa [handedOut, hv, hres] using ⟨kept_identityValue hty hvalue, hkept⟩
    | error e t' =>
      rw [hres] at hone hrows hkept
      refine ⟨rows, ?_, ?_⟩
      · rw [insertAll, foldl_cons, hres, ← hone]
        exact hrows
      · simpa [handedOut, hres] using hkept

/-- **The value of a row that is stored is the one handed out to its `INSERT` exactly when the
column has that value**, for every seed and increment, whatever each caller sees of the counter,
and every number of rows, refused ones included.  No value is refused for the column's sake. -/
theorem identities_in_range_are_stored {spec : IdentitySpec} {ty : SqlType} {lo hi : ℤ}
    (hty : ty.range = some (1, lo, hi)) :
    (∀ (stmts : List Insert) (t : IdentityTable),
      ∃ rows, (insertAll spec ty stmts t).rows = t.rows ++ rows ∧
        Forall₂ (Kept lo hi) (handedOut spec ty stmts t) rows) ∧
    ∀ (stmt : Insert) (t : IdentityTable) (before : Row) (v : Int64),
      stmt.before = .ok before → stmt.handed spec t = .ok v → stmt.counted = .ok () →
      ∃ value, (value.count = some (1, v.toInt) ↔ lo ≤ v.toInt ∧ v.toInt < hi) ∧
        ∀ before' after, stmt.complete t.rows before value = .ok (before', after) →
          writeOne spec ty stmt t = .ok ()
            { t with counter := v :: t.counter, rows := t.rows ++ [(before', value, after)] } := by
  refine ⟨handedOut_spec hty, fun stmt t before v hbefore hv hcounted => ?_⟩
  obtain ⟨value, hvalue⟩ := exists_identityValue hty ⟨.ofInt 128 v.toInt, 38, 0⟩
  exact ⟨value, @kept_identityValue _ _ _ _ _ [] [] hty hvalue,
    fun before' after hrow => writeOne_of_complete hbefore hv hcounted hvalue hrow⟩

/-- An `INSERT` that gives no other column and sees the newest value of the counter. -/
def plainInsert : Insert :=
  ⟨.ok [], fun counter => .ok counter.head?, .ok (), fun _ _ _ => .ok ([], [])⟩

/-- An `INSERT` whose row a constraint refuses. -/
def refusedInsert : Insert :=
  { plainInsert with complete := fun _ _ _ => bug "INSERT: refused" }

/-- `IDENTITY(250, 2)` on a `tinyint`: the second row is refused, and the fourth one is out of
range. -/
theorem identities_skip_a_refused_row :
    (∃ rows, Forall₂ (Kept 0 (2 ^ 8)) [250, 254, 256] rows ∧
      rows = [([], .i8 250, []), ([], .i8 254, []), ([], .i8 0, [])]) := by
  obtain ⟨rows, hrows, hkept⟩ := (@identities_in_range_are_stored ⟨250, 2⟩ .tinyInt _ _ rfl).1
    [plainInsert, refusedInsert, plainInsert, plainInsert] ⟨5, [], []⟩
  refine ⟨rows, ?_, ?_⟩
  · have hout : handedOut ⟨250, 2⟩ .tinyInt [plainInsert, refusedInsert, plainInsert, plainInsert]
        ⟨5, [], []⟩ = [250, 254, 256] := by decide +kernel
    rwa [hout] at hkept
  · rw [← nil_append rows, ← hrows]
    decide +kernel

/-- `IDENTITY(0, 256)` on a `tinyint`: 256 is out of range, no error is raised, and 0 is stored
twice. -/
theorem narrow_identity_is_stored_twice :
    insertAll ⟨0, 256⟩ .tinyInt [plainInsert, plainInsert] ⟨5, [], []⟩ =
      ⟨5, [256, 0], [([], .i8 0, []), ([], .i8 0, [])]⟩ := by
  decide +kernel

end VaubanDB.Exec
