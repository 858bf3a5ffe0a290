import VaubanDB.Library.Results

/-!
SQL values, the types of columns and the errors (`vauban-types/src/value.rs`,
`vauban-types/src/sql_type.rs`, `vauban-errors`).

A value keeps the width of its representation: the integers are the fixed-width ones, a
decimal holds a 128-bit mantissa, and a float is its bit pattern, so that a NaN is a value
like any other and the order of two floats is computed from their bits (`f64Order`).
-/

namespace VaubanDB

/-! ### Collations and types of columns -/

/-- A collation, as its five wire bytes. -/
structure Collation where
  lcid : UInt32
  flags : UInt8
  version : UInt8
  sortId : UInt8
  deriving DecidableEq, Repr

/-- `SQL_Latin1_General_CP1_CI_AS`, the collation of a fresh instance. -/
def Collation.default : Collation := ⟨0x0409, 0x0D, 0, 52⟩

/-- The declared length of a character or binary type. -/
inductive Len where
  | fixed (n : UInt16)
  | max
  deriving DecidableEq, Repr

/-- A scalar data type, with its declared parameters. -/
inductive SqlType where
  | bit | tinyInt | smallInt | int | bigInt
  | decimal (precision scale : UInt8)
  | numeric (precision scale : UInt8)
  | float | real | money | smallMoney
  | char (len : Len)
  | varChar (len : Len)
  | nChar (len : Len)
  | nVarChar (len : Len)
  | binary (len : Len)
  | varBinary (len : Len)
  | date
  | time (scale : UInt8)
  | dateTime | smallDateTime
  | dateTime2 (scale : UInt8)
  | dateTimeOffset (scale : UInt8)
  | uniqueIdentifier
  deriving DecidableEq, Repr

def SqlType.isString : SqlType → Bool
  | .char _ | .varChar _ | .nChar _ | .nVarChar _ => true
  | _ => false

/-- The two types with a declared precision and scale. -/
def SqlType.isExactNumeric : SqlType → Bool
  | .decimal .. | .numeric .. => true
  | _ => false

structure TypeInfo where
  ty : SqlType
  nullable : Bool
  collation : Option Collation
  deriving DecidableEq, Repr

/-! ### Values -/

/-- `decimal(p, s)`: the value is `mantissa / 10^scale`. -/
structure Decimal where
  mantissa : BitVec 128
  precision : UInt8
  scale : UInt8
  deriving DecidableEq, Repr

/-- `date`: days since 0001-01-01. -/
structure Date where
  days : Int32
  deriving DecidableEq, Repr

/-- `time(s)`: ticks of 100 ns since midnight. -/
structure Time where
  ticks100ns : UInt64
  deriving DecidableEq, Repr

/-- `datetime`: days since 1900-01-01 and ticks of 1/300 s since midnight. -/
structure DateTime where
  days : Int32
  ticks300th : UInt32
  deriving DecidableEq, Repr

structure DateTime2 where
  date : Date
  time : Time
  deriving DecidableEq, Repr

/-- `datetimeoffset(s)`: an instant in UTC and the offset it was written with. -/
structure DateTimeOffset where
  utc : DateTime2
  offsetMinutes : Int16
  deriving DecidableEq, Repr

/-- A value in memory; the two floats are their IEEE bit patterns. -/
inductive Value where
  | null
  | bit (b : Bool)
  | i8 (n : UInt8)
  | i16 (n : Int16)
  | i32 (n : Int32)
  | i64 (n : Int64)
  | decimal (d : Decimal)
  | f64 (bits : BitVec 64)
  | f32 (bits : BitVec 32)
  | money (n : Int64)
  | string (text : String)
  | bytes (bs : List UInt8)
  | date (d : Date)
  | time (t : Time)
  | dateTime (d : DateTime)
  | dateTime2 (d : DateTime2)
  | dateTimeOffset (d : DateTimeOffset)
  | guid (bs : Vector UInt8 16)
  deriving DecidableEq, Repr

instance : Inhabited Value := ⟨.null⟩

/-! ### Errors -/

/-- The errors that are not meant for a client as they are. -/
inductive InternalError where
  | io (msg : String)
  | corruption (msg : String)
  | bug (msg : String)
  deriving DecidableEq, Repr

/-- The errors of the storage layer: an internal one, or the duplicate key 2601. -/
inductive SqlError where
  | internal (e : InternalError)
  | duplicateKeyIndex (table index : String) (key : List Value)
  deriving DecidableEq, Repr

/-- The result of every fallible operation. -/
abbrev SqlResult (α : Type) := Except SqlError α

/-- A violated precondition or an impossible state: a bug of the caller. -/
def bug {α : Type} (msg : String) : SqlResult α := .error (.internal (.bug msg))

/-- A broken invariant of the storage. -/
def corruption {α : Type} (msg : String) : SqlResult α := .error (.internal (.corruption msg))

def SqlError.isCorruption : SqlError → Bool
  | .internal (.corruption _) => true
  | _ => false

/-- The result, if it is an error, does not report a corruption. -/
def Uncorrupted {α : Type} (r : SqlResult α) : Prop :=
  ∀ e, r = .error e → e.isCorruption = false

namespace Uncorrupted

variable {α β : Type}

lemma ok (a : α) : Uncorrupted (.ok a) := fun _ h => nomatch h

lemma bug (msg : String) : Uncorrupted (VaubanDB.bug msg : SqlResult α) := by
  intro e h
  cases h
  rfl

variable {r : SqlResult α}

lemma elim {P : Prop} {e : SqlError} (hr : Uncorrupted r) (he : r = .error e)
    (h : e.isCorruption = true) : P := by
  simp [hr e he] at h

variable {f : α → SqlResult β}

lemma bind (hr : Uncorrupted r)
    (hf : ∀ a, r = .ok a → Uncorrupted (f a)) : Uncorrupted (r >>= f) := by
  intro e h
  cases r with
  | error e' =>
    cases h
    exact hr e rfl
  | ok a => exact hf a rfl e h

lemma map (f : α → β) (hr : Uncorrupted r) : Uncorrupted (r.map f) := by
  intro e h
  cases r with
  | error e' =>
    cases h
    exact hr e rfl
  | ok a => cases h

lemma mapM {l : List α} (hf : ∀ x ∈ l, Uncorrupted (f x)) : Uncorrupted (l.mapM f) := by
  intro e h
  obtain ⟨x, hx, hfx⟩ := Except.mapM_eq_error h
  exact hf x hx e hfx

/-- A loop whose steps keep `P` and report no corruption from a state with `P`. -/
lemma foldlM {P : β → Prop} {f : β → α → SqlResult β} {l : List α} {b : β} (hb : P b)
    (hf : ∀ b, P b → ∀ x ∈ l, Uncorrupted (f b x))
    (hP : ∀ b, P b → ∀ x ∈ l, ∀ b', f b x = .ok b' → P b') : Uncorrupted (l.foldlM f b) := by
  induction l generalizing b with
  | nil => exact .ok b
  | cons x l ih =>
    rw [List.foldlM_cons]
    refine .bind (hf b hb x List.mem_cons_self) fun b' hb' => ?_
    exact ih (hP b hb x List.mem_cons_self b' hb')
      (fun b hb y hy => hf b hb y (List.mem_cons_of_mem _ hy))
      fun b hb y hy => hP b hb y (List.mem_cons_of_mem _ hy)

end Uncorrupted

end VaubanDB
