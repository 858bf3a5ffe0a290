import VaubanDB.Library.Limbs
import VaubanDB.Library.Rounding
import VaubanDB.Types.SortKeyOrder

/-!
Arithmetic on integers and on amounts of money (`eval_binary` in
`vauban-types/src/arith/eval.rs`).

`exactResult` is the number an operator stands for.  The code answers with it, or with 8115 where
the result type does not hold it, exactly but for one remainder: `checked_rem` also refuses the
least `bigint` by `-1` (`arithmetic_overflows_out_of_range`, `least_remainder_overflows`).  A
product of amounts is rounded through long integers of limbs in base `10 ^ 9`.
-/

open Rounding

namespace VaubanDB

inductive BinaryOp where
  | add | sub | mul | div | mod | bitAnd | bitOr | bitXor | concat
  deriving DecidableEq, Repr

/-- What an operator raises: 8134, 8115 to the result type, or an internal error. -/
inductive EvalError where
  | divideByZero
  | arithmeticOverflow (out : SqlType)
  | incompatible (op : BinaryOp) (a b : Value)
  | wrongResultType (op : BinaryOp) (out : SqlType)
  | notIntegral (out : SqlType)
  deriving DecidableEq, Inhabited

abbrev EvalResult := Except EvalError Value

/-- The `i64` an integral operand carries, a `bit` being 0 or 1. -/
def integer : Value → Option ℤ
  | .bit b => some b.toNat
  | v => integerAsI64 v

/-! ### Integers -/

abbrev InI64 (z : ℤ) : Prop := -2 ^ 63 ≤ z ∧ z < 2 ^ 63

/-- The checked operations of `i64`, from their exact result. -/
def checked (z : ℤ) : Option ℤ := if InI64 z then some z else none

/-- `checked_rem`: `none` where the quotient leaves the type, though the remainder does not. -/
def checkedRem (x y : ℤ) : Option ℤ := if x = -2 ^ 63 ∧ y = -1 then none else some (x.tmod y)

/-- The value of a number between two bounds. -/
def fitted (out : SqlType) (lo hi : ℤ) (value : ℤ → Value) (n : ℤ) : EvalResult :=
  if lo ≤ n ∧ n < hi then .ok (value n) else .error (.arithmeticOverflow out)

def integerResult (out : SqlType) (n : ℤ) : EvalResult :=
  match out with
  | .bit => .ok (.bit (n ≠ 0))
  | .tinyInt => fitted out 0 (2 ^ 8) (fun n => .i8 (.ofInt n)) n
  | .smallInt => fitted out (-2 ^ 15) (2 ^ 15) (fun n => .i16 (.ofInt n)) n
  | .int => fitted out (-2 ^ 31) (2 ^ 31) (fun n => .i32 (.ofInt n)) n
  | .bigInt => fitted out (-2 ^ 63) (2 ^ 63) (fun n => .i64 (.ofInt n)) n
  | _ => .error (.notIntegral out)

def checkedResult (out : SqlType) : Option ℤ → EvalResult
  | some n => integerResult out n
  | none => .error (.arithmeticOverflow out)

def evalInteger (op : BinaryOp) (x y : ℤ) (out : SqlType) : EvalResult :=
  match op with
  | .add => checkedResult out (checked (x + y))
  | .sub => checkedResult out (checked (x - y))
  | .mul => checkedResult out (checked (x * y))
  | .div => if y = 0 then .error .divideByZero else checkedResult out (checked (x.tdiv y))
  | .mod => if y = 0 then .error .divideByZero else checkedResult out (checkedRem x y)
  | _ => .error (.wrongResultType op out)

/-! ### Amounts of money -/

def limbBase : ℕ := 10 ^ 9

/-- A result of the checked operations of `u128`. -/
def checkedU128 (n : ℕ) : Option ℕ := if n < 2 ^ 128 then some n else none

/-- The number of some limbs (`BigUint::to_u128`), `none` where it leaves a `u128`. -/
def toU128 (limbs : List ℕ) : Option ℕ :=
  limbs.foldr (fun limb acc => do checkedU128 ((← checkedU128 ((← acc) * limbBase)) + limb))
    (some 0)

/-- A sign and a magnitude; zero is not negative. -/
structure BigInt where
  negative : Bool
  magnitude : List ℕ

namespace BigInt

def signed (negative : Bool) (magnitude : List ℕ) : BigInt :=
  ⟨negative && magnitude ≠ [], magnitude⟩

/-- `BigUint::from_u128` takes the limbs off one after the other. -/
def fromI128 (v : ℤ) : BigInt := signed (v < 0) (Nat.digits limbBase v.natAbs)

/-- The magnitude has to be an `i128` before it is given its sign. -/
def toI128 (n : BigInt) : Option ℤ := do
  let magnitude ← toU128 n.magnitude
  if magnitude < 2 ^ 127 then some (if n.negative then -magnitude else magnitude) else none

/-- The quotient rounded half away from zero. -/
def dividedRounded (n d : BigInt) : BigInt :=
  let (quotient, remainder) := Limbs.dividedBy limbBase n.magnitude d.magnitude
  signed (n.negative != d.negative)
    (if Limbs.cmp (Limbs.times limbBase remainder (Nat.digits limbBase 2)) d.magnitude ≠ .lt then
      Limbs.plus limbBase quotient (Nat.digits limbBase 1)
    else quotient)

end BigInt

def divideRounded (n d : ℤ) : Option ℤ :=
  if d = 0 then none else ((BigInt.fromI128 n).dividedRounded (.fromI128 d)).toI128

def moneyResult (op : BinaryOp) (out : SqlType) (m : ℤ) : EvalResult :=
  match out with
  | .money => fitted out (-2 ^ 63) (2 ^ 63) (fun m => .money (.ofInt m)) m
  | .smallMoney => fitted out (-2 ^ 31) (2 ^ 31) (fun m => .money (.ofInt m)) m
  | _ => .error (.wrongResultType op out)

/-- On ten-thousandths.  No sum or product of two `i64` leaves an `i128`. -/
def evalMoney (op : BinaryOp) (x y : ℤ) (out : SqlType) : EvalResult :=
  match op with
  | .add => moneyResult op out (x + y)
  | .sub => moneyResult op out (x - y)
  | .mul =>
    (divideRounded (x * y) (10 ^ 4)).elim (.error (.arithmeticOverflow out)) (moneyResult op out)
  | .div => if y = 0 then .error .divideByZero else moneyResult op out ((x * 10 ^ 4).tdiv y)
  | .mod => if y = 0 then .error .divideByZero else moneyResult op out (x.tmod y)
  | _ => .error (.wrongResultType op out)

/-! ### The dispatch -/

/-- The arms of the bitwise operators and of the families that are neither integers nor money. -/
structure OtherArms where
  concatStrings : String → String → TypeInfo → EvalResult
  concatBytes : List UInt8 → List UInt8 → TypeInfo → EvalResult
  evalBitwise : BinaryOp → ℤ → ℤ → TypeInfo → EvalResult
  evalDecimal : BinaryOp → Decimal → Decimal → TypeInfo → EvalResult
  evalDateTime : BinaryOp → DateTime → DateTime → TypeInfo → EvalResult
  evalFloat : BinaryOp → BitVec 64 → BitVec 64 → TypeInfo → EvalResult
  deriving Inhabited

/-- Two integral operands, or the internal error. -/
def onIntegers (op : BinaryOp) (a b : Value) (eval : ℤ → ℤ → EvalResult) : EvalResult :=
  match integer a, integer b with
  | some x, some y => eval x y
  | _, _ => .error (.incompatible op a b)

def evalBinary (arms : OtherArms) (op : BinaryOp) (a b : Value) (out : TypeInfo) : EvalResult :=
  match op, a, b with
  | _, .null, _ | _, _, .null => .ok .null
  | .concat, .string x, .string y | .add, .string x, .string y => arms.concatStrings x y out
  | .concat, .bytes x, .bytes y | .add, .bytes x, .bytes y => arms.concatBytes x y out
  | .concat, a, b => .error (.incompatible op a b)
  | .bitAnd, a, b | .bitOr, a, b | .bitXor, a, b =>
    onIntegers op a b fun x y => arms.evalBitwise op x y out
  | _, .decimal x, .decimal y => arms.evalDecimal op x y out
  | _, .money x, .money y => evalMoney op x.toInt y.toInt out.ty
  | _, .dateTime x, .dateTime y => arms.evalDateTime op x y out
  | _, a, b =>
    match floatAsF64 a, floatAsF64 b with
    | some x, some y => arms.evalFloat op x y out
    | _, _ => onIntegers op a b fun x y => evalInteger op x y out.ty

/-! ### The numbers behind the values -/

/-- The number of a value, as a count of units, and how many of them make one. -/
def Value.count : Value → Option (ℤ × ℤ)
  | .money n => some (10 ^ 4, n.toInt)
  | v => (integer v).map fun n => (1, n)

/-- The unit of a result type, and the bounds of its counts. -/
def SqlType.range : SqlType → Option (ℤ × ℤ × ℤ)
  | .tinyInt => some (1, 0, 2 ^ 8)
  | .smallInt => some (1, -2 ^ 15, 2 ^ 15)
  | .int => some (1, -2 ^ 31, 2 ^ 31)
  | .bigInt => some (1, -2 ^ 63, 2 ^ 63)
  | .smallMoney => some (10 ^ 4, -2 ^ 31, 2 ^ 31)
  | .money => some (10 ^ 4, -2 ^ 63, 2 ^ 63)
  | _ => none

/-- The variant of the values of a result type. -/
def SqlType.Has : SqlType → Value → Prop
  | .tinyInt, .i8 _ | .smallInt, .i16 _ | .int, .i32 _ | .bigInt, .i64 _ => True
  | .money, .money _ | .smallMoney, .money _ => True
  | _, _ => False

/-- The five operators on counts of a unit: a product is rounded half away from zero, a quotient
truncated, a remainder has the sign of the dividend. -/
def exactResult (unit x y : ℤ) : BinaryOp → Option ℤ
  | .add => some (x + y)
  | .sub => some (x - y)
  | .mul => some (roundHalfAway ((x * y : ℤ) / unit))
  | .div => some (truncate ((x * unit : ℤ) / y))
  | .mod => some (x - y * truncate (x / y))
  | _ => none

/-- The result counts `z`, or is 8115 where `z` leaves the bounds. -/
def Computes (out : SqlType) (unit lo hi z : ℤ) (r : EvalResult) : Prop :=
  if lo ≤ z ∧ z < hi then ∃ v, r = .ok v ∧ out.Has v ∧ v.count = some (unit, z)
  else r = .error (.arithmeticOverflow out)

variable {out : SqlType} {unit lo hi x y z : ℤ} {op : BinaryOp}

lemma fitted_computes {value : ℤ → Value} {f : ℤ → ℤ} (hhas : ∀ n, out.Has (value n))
    (hcount : ∀ n, (value n).count = some (unit, f n)) (hf : lo ≤ z → z < hi → f z = z) :
    Computes out unit lo hi z (fitted out lo hi value z) := by
  unfold Computes fitted
  split_ifs with hz
  · exact ⟨_, rfl, hhas z, by rw [hcount, hf hz.1 hz.2]⟩
  · rfl

lemma integerResult_computes (h : out.range = some (1, lo, hi)) :
    Computes out 1 lo hi z (integerResult out z) := by
  cases out <;> cases h <;> rw [integerResult]
  case tinyInt =>
    refine fitted_computes (fun _ => trivial) (fun _ => rfl) fun h₁ h₂ => ?_
    simp [UInt8.ofInt]
    omega
  case smallInt => exact fitted_computes (fun _ => trivial) (fun _ => rfl) Int16.toInt_ofInt_of_le
  case int => exact fitted_computes (fun _ => trivial) (fun _ => rfl) Int32.toInt_ofInt_of_le
  case bigInt => exact fitted_computes (fun _ => trivial) (fun _ => rfl) Int64.toInt_ofInt_of_le

lemma moneyResult_computes (h : out.range = some (10 ^ 4, lo, hi)) :
    Computes out (10 ^ 4) lo hi z (moneyResult op out z) := by
  cases out <;> cases h <;> rw [moneyResult]
  all_goals
    refine fitted_computes (fun _ => trivial) (fun _ => rfl) fun h₁ h₂ => ?_
    exact Int64.toInt_ofInt_of_le (by omega) (by omega)

lemma checkedResult_checked (h : out.range = some (1, lo, hi)) :
    checkedResult out (checked z) = integerResult out z := by
  rw [checked]
  split_ifs with hz
  · rfl
  · cases out <;> cases h <;> exact (if_neg (by omega)).symm

/-! ### The operators -/

lemma integer_inI64 {v : Value} (h : integer v = some x) : InI64 x := by
  cases v with
  | bit b => cases b <;> cases h <;> decide
  | _ =>
    rw [integer] at h
    · exact integerAsI64_range h
    · simp

lemma count_cases {v : Value} (h : v.count = some (unit, x)) :
    unit = 1 ∧ integer v = some x ∨ unit = 10 ^ 4 ∧ ∃ n : Int64, v = .money n ∧ n.toInt = x := by
  cases v <;> cases h <;> first | exact .inl ⟨rfl, rfl⟩ | exact .inr ⟨rfl, _, rfl, rfl⟩

lemma InI64.tmod (hy : InI64 y) (h0 : y ≠ 0) (x : ℤ) : InI64 (x.tmod y) := by
  have hlt := Nat.mod_lt x.natAbs (Int.natAbs_pos.mpr h0)
  rw [← Int.natAbs_tmod] at hlt
  omega

/-! ### The long integers -/

lemma checkedU128_bind {α : Type} (f : ℕ → Option α) (n : ℕ) :
    (checkedU128 n >>= f) = if n < 2 ^ 128 then f n else none := by
  rw [checkedU128]
  split_ifs <;> rfl

lemma toU128_eq (limbs : List ℕ) : toU128 limbs = checkedU128 (Nat.ofDigits limbBase limbs) := by
  induction limbs with
  | nil => rfl
  | cons limb limbs ih =>
    rw [toU128, List.foldr_cons, ← toU128, ih, Nat.ofDigits_cons, checkedU128_bind,
      checkedU128_bind, checkedU128, checkedU128, limbBase]
    generalize Nat.ofDigits (10 ^ 9) limbs = n
    have hcomm : n * 10 ^ 9 + limb = limb + 10 ^ 9 * n := by ring
    rw [hcomm]
    -- a step that leaves the type leaves it for good
    by_cases hfits : limb + 10 ^ 9 * n < 2 ^ 128
    · rw [if_pos (by omega), if_pos (by omega)]
    · split_ifs <;> rfl

lemma one_lt_limbBase : 1 < limbBase := by decide

lemma dividedRounded_fromI128 (n : ℤ) {d : ℤ} (hd : d ≠ 0) :
    (BigInt.fromI128 n).dividedRounded (.fromI128 d) =
      .signed ((BigInt.fromI128 n).negative != (BigInt.fromI128 d).negative)
        (Nat.digits limbBase (roundedQuotient n.natAbs d.natAbs)) := by
  have hd' : d.natAbs ≠ 0 := Int.natAbs_ne_zero.mpr hd
  have hdivided : Limbs.dividedBy limbBase (BigInt.fromI128 n).magnitude
      (BigInt.fromI128 d).magnitude = _ := Limbs.dividedBy_digits one_lt_limbBase n.natAbs hd'
  have hcmp : Limbs.cmp (Limbs.times limbBase (Nat.digits limbBase (n.natAbs % d.natAbs))
      (Nat.digits limbBase 2)) (BigInt.fromI128 d).magnitude ≠ .lt ↔
        d.natAbs ≤ 2 * (n.natAbs % d.natAbs) := by
    rw [Limbs.times_digits one_lt_limbBase]
    refine (not_congr (iff_of_eq (congrArg (· = .lt)
      (Limbs.cmp_digits one_lt_limbBase _ _)))).trans ?_
    rw [Nat.compare_eq_lt, not_lt, Nat.mul_comm]
  rw [BigInt.dividedRounded, hdivided]
  dsimp only
  rw [if_congr hcmp (Limbs.plus_digits one_lt_limbBase _ _) rfl, roundedQuotient]
  split_ifs <;> rfl

lemma divideRounded_eq (n : ℤ) {d : ℤ} (hd : 0 < d)
    (hfits : roundedQuotient n.natAbs d.natAbs < 2 ^ 127) :
    divideRounded n d = some (roundHalfAway (n / d)) := by
  rw [divideRounded, if_neg hd.ne', dividedRounded_fromI128 n hd.ne', roundHalfAway_div n hd.ne',
    Int.sign_eq_one_of_pos hd, BigInt.toI128, BigInt.signed, toU128_eq, Nat.ofDigits_digits,
    checkedU128_bind, if_pos (hfits.trans (by norm_num)), if_pos hfits]
  have hpositive : (BigInt.fromI128 d).negative = false := by
    simp [BigInt.fromI128, BigInt.signed, hd.le]
  rw [hpositive]
  rcases lt_trichotomy n 0 with hn | rfl | hn
  · have hnegative : (BigInt.fromI128 n).negative = true := by
      have hne := Nat.digits_ne_nil_iff_ne_zero (b := limbBase).mpr (Int.natAbs_ne_zero.mpr hn.ne)
      simp [BigInt.fromI128, BigInt.signed, hn, hne]
    rw [hnegative, Int.sign_eq_neg_one_of_neg hn]
    generalize roundedQuotient n.natAbs d.natAbs = q
    rcases Nat.eq_zero_or_pos q with rfl | hq
    · simp
    · simp [Nat.digits_ne_nil_iff_ne_zero.mpr hq.ne']
  · simp [roundedQuotient, hd.ne']
  · have hnegative : (BigInt.fromI128 n).negative = false := by
      simp [BigInt.fromI128, BigInt.signed, hn.le]
    simp [hnegative, Int.sign_eq_one_of_pos hn]

lemma divideRounded_money (hx : InI64 x) (hy : InI64 y) :
    divideRounded (x * y) (10 ^ 4) = some (roundHalfAway ((x * y : ℤ) / (10 ^ 4 : ℤ))) := by
  have hle : (x * y).natAbs ≤ 2 ^ 63 * 2 ^ 63 := by
    rw [Int.natAbs_mul]
    exact Nat.mul_le_mul (by omega) (by omega)
  refine divideRounded_eq _ (by decide) ?_
  rw [show (10 ^ 4 : ℤ).natAbs = 10 ^ 4 from rfl, roundedQuotient]
  split_ifs <;> omega

variable (hz : exactResult unit x y op = some z) (hzero : ¬((op = .div ∨ op = .mod) ∧ y = 0))

include hzero in
lemma evalInteger_computes (hout : out.range = some (1, lo, hi)) (hy : InI64 y)
    (hz : exactResult 1 x y op = some z) (hleast : ¬(op = .mod ∧ x = -2 ^ 63 ∧ y = -1)) :
    Computes out 1 lo hi z (evalInteger op x y out) := by
  suffices h : evalInteger op x y out = checkedResult out (checked z) by
    rw [h, checkedResult_checked hout]
    exact integerResult_computes hout
  cases op with
  | add | sub =>
    cases hz
    rfl
  | mul =>
    obtain rfl := Option.some.inj hz
    rw [evalInteger, roundHalfAway_one]
  | div =>
    obtain rfl := Option.some.inj hz
    rw [evalInteger, if_neg fun h => hzero ⟨.inl rfl, h⟩, truncate_eq_tdiv, mul_one]
  | mod =>
    obtain rfl := Option.some.inj hz
    have h0 : y ≠ 0 := fun h => hzero ⟨.inr rfl, h⟩
    rw [evalInteger, if_neg h0, truncate_eq_tdiv, ← Int.tmod_def, checkedRem,
      if_neg fun h => hleast ⟨rfl, h⟩, checked, if_pos (hy.tmod h0 x)]
  | _ => simp [exactResult] at hz

include hzero in
lemma evalMoney_computes (hout : out.range = some (10 ^ 4, lo, hi)) (hx : InI64 x) (hy : InI64 y)
    (hz : exactResult (10 ^ 4) x y op = some z) :
    Computes out (10 ^ 4) lo hi z (evalMoney op x y out) := by
  suffices h : evalMoney op x y out = moneyResult op out z by
    rw [h]
    exact moneyResult_computes hout
  cases op with
  | add | sub =>
    cases hz
    rfl
  | mul =>
    obtain rfl := Option.some.inj hz
    rw [evalMoney, divideRounded_money hx hy, Option.elim]
  | div =>
    obtain rfl := Option.some.inj hz
    rw [evalMoney, if_neg fun h => hzero ⟨.inl rfl, h⟩, truncate_eq_tdiv]
  | mod =>
    obtain rfl := Option.some.inj hz
    rw [evalMoney, if_neg fun h => hzero ⟨.inr rfl, h⟩, truncate_eq_tdiv, ← Int.tmod_def]
  | _ => simp [exactResult] at hz

variable {arms : OtherArms} {a b : Value} {info : TypeInfo}

include hz in
lemma evalBinary_money (m n : Int64) :
    evalBinary arms op (.money m) (.money n) info = evalMoney op m.toInt n.toInt info.ty := by
  cases op <;> first | rfl | simp [exactResult] at hz

include hz in
lemma evalBinary_integers (ha : integer a = some x) (hb : integer b = some y) :
    evalBinary arms op a b info = evalInteger op x y info.ty := by
  have hon : evalBinary arms op a b info
      = onIntegers op a b fun x y => evalInteger op x y info.ty := by
    cases a <;> simp [integer, integerAsI64] at ha <;> cases b <;>
      simp [integer, integerAsI64] at hb <;> cases op <;> first | rfl | simp [exactResult] at hz
  rw [hon, onIntegers, ha, hb]

/-- What an operator answers is no division by zero. -/
lemma Computes.ne_divideByZero {r : EvalResult} (h : Computes out unit lo hi z r) :
    r ≠ .error .divideByZero := by
  rintro rfl
  unfold Computes at h
  split_ifs at h
  · obtain ⟨v, hv, -⟩ := h
    cases hv
  · cases h

/-- Zero is in the range of every result type. -/
lemma not_computes_zero {e : EvalError} (hout : out.range = some (1, lo, hi)) :
    ¬ Computes out 1 lo hi 0 (.error e) := by
  intro h
  have hzero : lo ≤ 0 ∧ 0 < hi := by
    cases out <;> cases hout <;> decide
  rw [Computes, if_pos hzero] at h
  obtain ⟨v, hv, -⟩ := h
  cases hv

lemma exactResult_least : exactResult 1 (-2 ^ 63) (-1) .mod = some 0 := by
  rw [exactResult, truncate_eq_tdiv]
  decide

/-- **An overflow is raised for the results out of range only**, exactly but for the remainder of
the least `bigint` by `-1`, and 8134 for a zero divisor only. -/
theorem arithmetic_overflows_out_of_range {op : BinaryOp} {arms : OtherArms} {a b : Value}
    {out : TypeInfo} {unit lo hi x y z : ℤ} (hout : out.ty.range = some (unit, lo, hi))
    (ha : a.count = some (unit, x)) (hb : b.count = some (unit, y))
    (hz : exactResult unit x y op = some z) :
    (evalBinary arms op a b out = .error .divideByZero ↔ (op = .div ∨ op = .mod) ∧ y = 0) ∧
      (¬((op = .div ∨ op = .mod) ∧ y = 0) →
        (Computes out.ty unit lo hi z (evalBinary arms op a b out) ↔
          ¬(unit = 1 ∧ op = .mod ∧ x = -2 ^ 63 ∧ y = -1))) := by
  obtain ⟨rfl, hia⟩ | ⟨rfl, m, rfl, rfl⟩ := count_cases ha <;>
    obtain ⟨hunit, hib⟩ | ⟨hunit, n, rfl, rfl⟩ := count_cases hb <;>
    first | exact absurd hunit (by decide) | clear hunit
  · rw [evalBinary_integers hz hia hib]
    by_cases h0 : (op = .div ∨ op = .mod) ∧ y = 0
    · refine ⟨iff_of_true ?_ h0, fun hne => absurd h0 hne⟩
      rcases h0 with ⟨rfl | rfl, rfl⟩ <;> rfl
    by_cases hleast : op = .mod ∧ x = -2 ^ 63 ∧ y = -1
    · obtain ⟨rfl, rfl, rfl⟩ := hleast
      obtain rfl := Option.some.inj (exactResult_least.symm.trans hz)
      have hrefused : evalInteger .mod (-2 ^ 63) (-1) out.ty =
        .error (.arithmeticOverflow out.ty) :=
        rfl
      rw [hrefused]
      exact ⟨iff_of_false (by simp) h0, fun _ => iff_of_false (not_computes_zero hout) (by simp)⟩
    · have hcomputes := evalInteger_computes h0 hout (integer_inI64 hib) hz hleast
      exact ⟨iff_of_false hcomputes.ne_divideByZero h0,
        fun _ => iff_of_true hcomputes fun h => hleast h.2⟩
  · rw [evalBinary_money hz]
    by_cases h0 : (op = .div ∨ op = .mod) ∧ n.toInt = 0
    · refine ⟨iff_of_true ?_ h0, fun hne => absurd h0 hne⟩
      rcases h0 with ⟨rfl | rfl, h0⟩ <;> exact if_pos h0
    · have hcomputes := evalMoney_computes h0 hout ⟨m.le_toInt, m.toInt_lt⟩
        ⟨n.le_toInt, n.toInt_lt⟩ hz
      exact ⟨iff_of_false hcomputes.ne_divideByZero h0,
        fun _ => iff_of_true hcomputes fun h => absurd h.1 (by decide)⟩

/-- `1.5` by `0.0001` is `0.0002`. -/
theorem half_unit_is_rounded_away :
    evalBinary default .mul (.money 15000) (.money 1) ⟨.money, false, none⟩ = .ok (.money 2) := by
  have hcomputes := ((@arithmetic_overflows_out_of_range .mul default (.money 15000) (.money 1)
    ⟨.money, false, none⟩ _ _ _ _ _ _ rfl rfl rfl rfl).2 (by decide)).mpr (by decide)
  have hround : roundHalfAway ((15000 * 1 : ℤ) / (10 ^ 4 : ℤ)) = 2 := by
    rw [roundHalfAway_div _ (by decide)]
    decide
  rw [show (15000 : Int64).toInt = 15000 from rfl, show (1 : Int64).toInt = 1 from rfl, hround,
    Computes, if_pos (by decide)] at hcomputes
  obtain ⟨v, hv, hmoney, hcount⟩ := hcomputes
  rw [hv]
  cases v with
  | money n =>
    have hn : n.toInt = (2 : Int64).toInt := congrArg Prod.snd (Option.some.inj hcount)
    rw [Int64.toInt_inj.mp hn]
  | _ => exact hmoney.elim

/-- The remainder of the least `bigint` by `-1` is zero, and 8115 is raised. -/
theorem least_remainder_overflows :
    evalBinary default .mod (.i64 Int64.minValue) (.i64 (-1)) ⟨.bigInt, false, none⟩
        = .error (.arithmeticOverflow .bigInt) ∧
      exactResult 1 (-2 ^ 63) (-1) .mod = some 0 := by
  exact ⟨by decide +kernel, exactResult_least⟩

end VaubanDB
