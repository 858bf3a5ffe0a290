import VaubanDB.Types.Collation

/-!
Comparison of two SQL values (`vauban-types/src/compare.rs`).

`compare` answers `none` when one of them is `NULL`, an order when both belong to one family, and an
error otherwise.  Inside a family a NaN is refused as well, and a decimal whose scale exceeds 38
next to one of the same sign: such a value is not even equal to itself (`Value.selfComparable`).
The answers are those of a preorder (`compare_swap`, `compare_trans`, `compare_total`).
-/

open Std (TransCmp OrientedCmp ReflCmp)

namespace VaubanDB

/-! ### Floats -/

/-- The bit pattern of `f64::from` of a `f32`: an exact widening, subnormals included. -/
def f64OfF32 (bits : BitVec 32) : BitVec 64 :=
  let sign := bits.toNat / 2 ^ 31
  let exponent := bits.toNat / 2 ^ 23 % 2 ^ 8
  let fraction := bits.toNat % 2 ^ 23
  let magnitude :=
    if exponent = 255 then 2047 * 2 ^ 52 + fraction * 2 ^ 29
    else if exponent = 0 then
      if fraction = 0 then 0
      else
        -- a subnormal: its leading one becomes the implicit bit
        let k := Nat.log2 fraction
        (k + 874) * 2 ^ 52 + (fraction - 2 ^ k) * 2 ^ (52 - k)
    else (exponent + 896) * 2 ^ 52 + fraction * 2 ^ 29
  BitVec.ofNat 64 (sign * 2 ^ 63 + magnitude)

/-- `f64::is_nan`: the exponent is all ones and the fraction is not zero. -/
def f64IsNan (bits : BitVec 64) : Bool :=
  0x7FF0000000000000 < bits.toNat % 2 ^ 63

/-- The place of a float that is not a NaN: sign and magnitude, the two zeros together. -/
def f64Order (bits : BitVec 64) : ℤ :=
  if bits.toNat < 2 ^ 63 then bits.toNat else -((bits.toNat - 2 ^ 63 : ℕ) : ℤ)

example : f64OfF32 0x3F800000#32 = 0x3FF0000000000000#64 := by decide

example : f64OfF32 0x80000001#32 = 0xB6A0000000000000#64 := by decide

/-- `partial_cmp` refuses a NaN. -/
def compareFloats (x y : BitVec 64) : SqlResult Ordering :=
  if f64IsNan x || f64IsNan y then bug "compare: NaN in float comparison"
  else .ok (Ord.compare (f64Order x) (f64Order y))

/-! ### Decimals -/

def pow10 (exp : UInt8) : SqlResult ℕ :=
  if 10 ^ exp.toNat < 2 ^ 128 then .ok (10 ^ exp.toNat)
  else bug s!"compare: decimal scale {exp} out of range"

/-- Splits `|d|` into its integer part and its fractional part rescaled to `maxScale`. -/
def splitDecimal (d : Decimal) (maxScale : UInt8) : SqlResult (ℕ × ℕ) := do
  let abs := d.mantissa.toInt.natAbs
  let scaleFactor ← pow10 d.scale
  let alignFactor ← pow10 (maxScale - d.scale)
  let fraction := abs % scaleFactor * alignFactor
  if fraction < 2 ^ 128 then
    .ok (abs / scaleFactor, fraction)
  else
    let scale := d.scale
    bug s!"compare: decimal scale {scale} out of range"

/-- Compares the absolute values of two decimals. -/
def compareDecimalMagnitudes (x y : Decimal) : SqlResult Ordering := do
  let maxScale := max x.scale y.scale
  let (intX, fracX) ← splitDecimal x maxScale
  let (intY, fracY) ← splitDecimal y maxScale
  .ok ((Ord.compare intX intY).then (Ord.compare fracX fracY))

/-- Compares two decimals by numeric value: signs, then integer parts, then fractions. -/
def compareDecimals (x y : Decimal) : SqlResult Ordering :=
  let signX := x.mantissa.toInt.sign
  let signY := y.mantissa.toInt.sign
  if signX ≠ signY then .ok (Ord.compare signX signY)
  else if signX = 0 then .ok .eq
  else do
    let magnitude ← compareDecimalMagnitudes x y
    .ok (if signX < 0 then magnitude.swap else magnitude)

/-! ### The other families -/

/-- The order in which the stored bytes of a `uniqueidentifier` are compared. -/
def guidOrder : List (Fin 16) := [10, 11, 12, 13, 14, 15, 8, 9, 6, 7, 4, 5, 0, 1, 2, 3]

/-- `uniqueidentifier` comparison: the first byte that differs, in `guidOrder`. -/
def compareGuids (x y : Vector UInt8 16) : Ordering :=
  List.compareLex Ord.compare (guidOrder.map x.get) (guidOrder.map y.get)

/-- `binary` comparison: byte by byte, the shorter operand padded with zeros. -/
def compareBytes (a b : List UInt8) : Ordering := padCmp Ord.compare 0 a b

def compareDateTime : DateTime → DateTime → Ordering :=
  compareLex (compareOn DateTime.days) (compareOn DateTime.ticks300th)

def compareDateTime2 : DateTime2 → DateTime2 → Ordering :=
  compareLex (compareOn fun x => x.date.days) (compareOn fun x => x.time.ticks100ns)

def integerAsI64 : Value → Option ℤ
  | .i8 x => some x.toNat
  | .i16 x => some x.toInt
  | .i32 x => some x.toInt
  | .i64 x => some x.toInt
  | _ => none

def floatAsF64 : Value → Option (BitVec 64)
  | .f32 x => some (f64OfF32 x)
  | .f64 x => some x
  | _ => none

def variantName : Value → String
  | .null => "Null"
  | .bit _ => "Bit"
  | .i8 _ => "I8"
  | .i16 _ => "I16"
  | .i32 _ => "I32"
  | .i64 _ => "I64"
  | .decimal _ => "Decimal"
  | .f64 _ => "F64"
  | .f32 _ => "F32"
  | .money _ => "Money"
  | .string _ => "String"
  | .bytes _ => "Bytes"
  | .date _ => "Date"
  | .time _ => "Time"
  | .dateTime _ => "DateTime"
  | .dateTime2 _ => "DateTime2"
  | .dateTimeOffset _ => "DateTimeOffset"
  | .guid _ => "Guid"

def Value.isNull : Value → Bool
  | .null => true
  | _ => false

/-- Compares two values with three-valued logic: `none` when one of them is `NULL`. -/
def compare (a b : Value) (collation : Collation) : SqlResult (Option Ordering) :=
  if a.isNull || b.isNull then .ok none
  else
    match integerAsI64 a, integerAsI64 b with
    | some x, some y => .ok (some (Ord.compare x y))
    | _, _ =>
      match floatAsF64 a, floatAsF64 b with
      | some x, some y => (compareFloats x y).map some
      | _, _ =>
        match a, b with
        | .bit x, .bit y => .ok (some (Ord.compare x y))
        | .decimal x, .decimal y => (compareDecimals x y).map some
        | .money x, .money y => .ok (some (Ord.compare x y))
        | .string x, .string y => .ok (some (collation.compare x y))
        | .bytes x, .bytes y => .ok (some (compareBytes x y))
        | .guid x, .guid y => .ok (some (compareGuids x y))
        | .date x, .date y => .ok (some (Ord.compare x.days y.days))
        | .time x, .time y => .ok (some (Ord.compare x.ticks100ns y.ticks100ns))
        | .dateTime x, .dateTime y => .ok (some (compareDateTime x y))
        | .dateTime2 x, .dateTime2 y => .ok (some (compareDateTime2 x y))
        | .dateTimeOffset x, .dateTimeOffset y => .ok (some (compareDateTime2 x.utc y.utc))
        | a, b =>
          let left := variantName a
          let right := variantName b
          bug s!"compare: incompatible value families {left} and {right}"

/-! ### Decimals are compared by their numeric value -/

namespace Decimal

variable {x y : Decimal}

/-- The numeric value of a decimal, in units of `10^-38`. -/
def units (d : Decimal) : ℤ := d.mantissa.toInt * 10 ^ (38 - d.scale.toNat)

/-- The pairs `compareDecimals` accepts: the signs decide, or both scales are in range. -/
def Compatible (x y : Decimal) : Prop :=
  x.mantissa.toInt.sign ≠ y.mantissa.toInt.sign ∨ x.mantissa.toInt.sign = 0 ∨
    (x.scale.toNat ≤ 38 ∧ y.scale.toNat ≤ 38)

lemma sign_units (d : Decimal) : d.units.sign = d.mantissa.toInt.sign := by
  have hpow : (10 ^ (38 - d.scale.toNat) : ℤ).sign = 1 :=
    Int.sign_eq_one_of_pos (pow_pos (by decide) _)
  rw [units, Int.sign_mul, hpow, mul_one]

lemma pow10_eq_ok {e : UInt8} (h : e.toNat ≤ 38) : pow10 e = .ok (10 ^ e.toNat) := by
  have hlt : 10 ^ e.toNat < 2 ^ 128 := calc
    10 ^ e.toNat ≤ 10 ^ 38 := Nat.pow_le_pow_right (by decide) h
    _ < 2 ^ 128 := by decide
  rw [pow10, if_pos hlt]

lemma pow10_isError {e : UInt8} (h : 38 < e.toNat) {n : ℕ} : pow10 e ≠ .ok n := by
  have hle : 2 ^ 128 ≤ 10 ^ e.toNat := calc
    2 ^ 128 ≤ 10 ^ 39 := by decide
    _ ≤ 10 ^ e.toNat := Nat.pow_le_pow_right (by decide) h
  rw [pow10, if_neg (by omega)]
  simp [bug]

lemma splitDecimal_eq_ok {d : Decimal} {m : UInt8} (hd : d.scale ≤ m) (hm : m.toNat ≤ 38) :
    splitDecimal d m = .ok (d.mantissa.toInt.natAbs * 10 ^ (m.toNat - d.scale.toNat) / 10 ^ m.toNat,
      d.mantissa.toInt.natAbs * 10 ^ (m.toNat - d.scale.toNat) % 10 ^ m.toNat) := by
  have hle : d.scale.toNat ≤ m.toNat := UInt8.le_iff_toNat_le.mp hd
  have hsub : (m - d.scale).toNat = m.toNat - d.scale.toNat := UInt8.toNat_sub_of_le _ _ hd
  have hpow : 10 ^ m.toNat = 10 ^ d.scale.toNat * 10 ^ (m.toNat - d.scale.toNat) := by
    rw [← pow_add]
    congr 1
    omega
  have hfrac : d.mantissa.toInt.natAbs % 10 ^ d.scale.toNat * 10 ^ (m.toNat - d.scale.toNat)
      = d.mantissa.toInt.natAbs * 10 ^ (m.toNat - d.scale.toNat) % 10 ^ m.toNat := by
    rw [hpow, Nat.mul_mod_mul_right]
  have hquot : d.mantissa.toInt.natAbs / 10 ^ d.scale.toNat
      = d.mantissa.toInt.natAbs * 10 ^ (m.toNat - d.scale.toNat) / 10 ^ m.toNat := by
    rw [hpow, Nat.mul_div_mul_right _ _ (by positivity)]
  have hlt : d.mantissa.toInt.natAbs * 10 ^ (m.toNat - d.scale.toNat) % 10 ^ m.toNat
      < 2 ^ 128 := calc
    _ < 10 ^ m.toNat := Nat.mod_lt _ (by positivity)
    _ ≤ 10 ^ 38 := Nat.pow_le_pow_right (by decide) hm
    _ < 2 ^ 128 := by decide
  simp only [splitDecimal, pow10_eq_ok (hle.trans hm), pow10_eq_ok (e := m - d.scale) (by omega),
    hsub, bind, Except.bind, hfrac, hquot, if_pos hlt]

lemma natAbs_units (d : Decimal) :
    d.units.natAbs = d.mantissa.toInt.natAbs * 10 ^ (38 - d.scale.toNat) := by
  rw [units, Int.natAbs_mul, Int.natAbs_pow]
  rfl

lemma compareDecimalMagnitudes_eq_ok (hx : x.scale.toNat ≤ 38) (hy : y.scale.toNat ≤ 38) :
    compareDecimalMagnitudes x y = .ok (Ord.compare x.units.natAbs y.units.natAbs) := by
  have hmax : (max x.scale y.scale).toNat = max x.scale.toNat y.scale.toNat := by
    change (if x.scale ≤ y.scale then y.scale else x.scale).toNat = _
    simp only [apply_ite UInt8.toNat, max_def, UInt8.le_iff_toNat_le]
  have hm : (max x.scale y.scale).toNat ≤ 38 := by omega
  have hxm : x.scale ≤ max x.scale y.scale := UInt8.le_iff_toNat_le.mpr (by omega)
  have hym : y.scale ≤ max x.scale y.scale := UInt8.le_iff_toNat_le.mpr (by omega)
  rw [compareDecimalMagnitudes, splitDecimal_eq_ok hxm hm, splitDecimal_eq_ok hym hm]
  simp only [bind, Except.bind]
  rw [Nat.compare_div_mod, natAbs_units, natAbs_units,
    ← compare_eq_compare (Nat.mul_lt_mul_right (a := 10 ^ (38 - (max x.scale y.scale).toNat))
      (by positivity)) (Nat.mul_lt_mul_right (by positivity)),
    mul_assoc, mul_assoc, ← pow_add, ← pow_add]
  congr 5 <;> omega

lemma compareDecimalMagnitudes_isError {o : Ordering} (h : compareDecimalMagnitudes x y = .ok o) :
    x.scale.toNat ≤ 38 ∧ y.scale.toNat ≤ 38 := by
  have hsplit : ∀ d m r, splitDecimal d m = .ok r → d.scale.toNat ≤ 38 := by
    intro d m r hr
    by_contra hd
    simp only [splitDecimal, bind, Except.bind] at hr
    cases hp : pow10 d.scale with
    | error e => simp [hp] at hr
    | ok n => exact pow10_isError (by omega) hp
  simp only [compareDecimalMagnitudes, bind, Except.bind] at h
  rcases hx : splitDecimal x (max x.scale y.scale) with e | rx
  · simp [hx] at h
  cases hy : splitDecimal y (max x.scale y.scale) with
  | error e => simp [hx, hy] at h
  | ok ry => exact ⟨hsplit _ _ _ hx, hsplit _ _ _ hy⟩

lemma compare_of_sign_eq {a b : ℤ} (h : a.sign = b.sign) :
    Ord.compare a b = if a.sign < 0 then (Ord.compare a.natAbs b.natAbs).swap
      else Ord.compare a.natAbs b.natAbs := by
  rcases lt_trichotomy a 0 with ha | ha | ha
  · have hb : b < 0 := by
      rw [Int.sign_eq_neg_one_of_neg ha] at h
      exact Int.sign_eq_neg_one_iff_neg.mp h.symm
    rw [if_pos (by rw [Int.sign_eq_neg_one_of_neg ha]; decide), Nat.compare_swap]
    exact compare_eq_compare (by omega) (by omega)
  · subst ha
    have hb : b = 0 := Int.sign_eq_zero_iff_zero.mp h.symm
    subst hb
    rfl
  · have hb : 0 < b := by
      rw [Int.sign_eq_one_of_pos ha] at h
      exact Int.sign_eq_one_iff_pos.mp h.symm
    rw [if_neg (by rw [Int.sign_eq_one_of_pos ha]; decide)]
    exact compare_eq_compare (by omega) (by omega)

lemma compare_of_sign_ne {a b : ℤ} (h : a.sign ≠ b.sign) :
    Ord.compare a b = Ord.compare a.sign b.sign := by
  rcases lt_trichotomy a 0 with ha | ha | ha <;> rcases lt_trichotomy b 0 with hb | hb | hb <;>
    simp_all [Int.sign_eq_neg_one_of_neg, Int.sign_eq_one_of_pos] <;>
    first
    | (rw [compare_lt_iff_lt.mpr (by omega)]; rfl)
    | (rw [compare_gt_iff_gt.mpr (by omega)]; rfl)

lemma compareDecimals_eq_ok_iff {o : Ordering} :
    compareDecimals x y = .ok o ↔ x.Compatible y ∧ o = Ord.compare x.units y.units := by
  rw [compareDecimals, Compatible, ← sign_units x, ← sign_units y]
  by_cases h : x.units.sign = y.units.sign
  · rw [if_neg (not_not.mpr h)]
    by_cases h0 : x.units.sign = 0
    · have hx := Int.sign_eq_zero_iff_zero.mp h0
      have hy := Int.sign_eq_zero_iff_zero.mp (h.symm.trans h0)
      simp [hx, hy, eq_comm]
    · rw [if_neg h0]
      simp only [h, ne_eq, not_true_eq_false, false_or, bind, Except.bind, h ▸ h0]
      constructor
      · intro hok
        rcases hm : compareDecimalMagnitudes x y with e | m
        · simp [hm] at hok
        obtain ⟨hx, hy⟩ := compareDecimalMagnitudes_isError hm
        simp only [compareDecimalMagnitudes_eq_ok hx hy, Except.ok.injEq] at hok
        exact ⟨⟨hx, hy⟩, by rw [compare_of_sign_eq h, ← hok, h]⟩
      · rintro ⟨⟨hx, hy⟩, rfl⟩
        simp only [compareDecimalMagnitudes_eq_ok hx hy]
        rw [compare_of_sign_eq h, h]
  · rw [if_pos h, compare_of_sign_ne h]
    simp [h, eq_comm]

lemma Compatible.symm (h : x.Compatible y) : y.Compatible x := by
  unfold Compatible at *
  omega

lemma Compatible.of_range (hx : x.mantissa.toInt = 0 ∨ x.scale.toNat ≤ 38)
    (hy : y.mantissa.toInt = 0 ∨ y.scale.toNat ≤ 38) : x.Compatible y := by
  rw [Compatible]
  rcases hx with hx | hx
  · exact .inr (.inl (by rw [hx]; rfl))
  · rcases hy with hy | hy
    · by_cases hsign : x.mantissa.toInt.sign = 0
      · exact .inr (.inl hsign)
      · exact .inl (by rwa [hy])
    · exact .inr (.inr ⟨hx, hy⟩)

lemma Compatible.trans {z : Decimal} (hxy : x.Compatible y) (hyz : y.Compatible z)
    (h₁ : x.units ≤ y.units) (h₂ : y.units ≤ z.units) : x.Compatible z := by
  have hx := sign_units x
  have hy := sign_units y
  have hz := sign_units z
  unfold Compatible at *
  rcases lt_trichotomy x.units 0 with hx' | hx' | hx' <;>
    rcases lt_trichotomy y.units 0 with hy' | hy' | hy' <;>
    rcases lt_trichotomy z.units 0 with hz' | hz' | hz' <;>
    simp only [hx', hy', hz', Int.sign_eq_neg_one_of_neg, Int.sign_eq_one_of_pos,
      Int.sign_zero] at hx hy hz <;>
    omega

end Decimal

/-! ### The families -/

section Families

variable {a b d : Value} {c : Collation} {o : Ordering}

/-- The answers of `compare`, family by family. -/
inductive Ordered (c : Collation) : Value → Value → Ordering → Prop where
  | integers {a b : Value} {x y : ℤ} (ha : integerAsI64 a = some x)
      (hb : integerAsI64 b = some y) : Ordered c a b (Ord.compare x y)
  | floats {a b : Value} {x y : BitVec 64} (ha : floatAsF64 a = some x)
      (hb : floatAsF64 b = some y) (hx : f64IsNan x = false) (hy : f64IsNan y = false) :
      Ordered c a b (Ord.compare (f64Order x) (f64Order y))
  | bit (x y : Bool) : Ordered c (.bit x) (.bit y) (Ord.compare x y)
  | decimal {x y : Decimal} (h : x.Compatible y) :
      Ordered c (.decimal x) (.decimal y) (Ord.compare x.units y.units)
  | money (x y : Int64) : Ordered c (.money x) (.money y) (Ord.compare x y)
  | string (x y : String) : Ordered c (.string x) (.string y) (c.compare x y)
  | bytes (x y : List UInt8) : Ordered c (.bytes x) (.bytes y) (compareBytes x y)
  | guid (x y : Vector UInt8 16) : Ordered c (.guid x) (.guid y) (compareGuids x y)
  | date (x y : Date) : Ordered c (.date x) (.date y) (Ord.compare x.days y.days)
  | time (x y : Time) : Ordered c (.time x) (.time y) (Ord.compare x.ticks100ns y.ticks100ns)
  | dateTime (x y : DateTime) : Ordered c (.dateTime x) (.dateTime y) (compareDateTime x y)
  | dateTime2 (x y : DateTime2) : Ordered c (.dateTime2 x) (.dateTime2 y) (compareDateTime2 x y)
  | dateTimeOffset (x y : DateTimeOffset) :
      Ordered c (.dateTimeOffset x) (.dateTimeOffset y) (compareDateTime2 x.utc y.utc)

lemma compareFloats_eq_ok_iff {x y : BitVec 64} : compareFloats x y = .ok o ↔
      f64IsNan x = false ∧ f64IsNan y = false ∧ o = Ord.compare (f64Order x) (f64Order y) := by
  rw [compareFloats]
  cases f64IsNan x <;> cases f64IsNan y <;> simp [bug, eq_comm]

lemma map_some_eq_ok {r : SqlResult Ordering} : r.map some = .ok (some o) ↔ r = .ok o := by
  cases r <;> simp [Except.map]

lemma compare_eq_ok_iff : compare a b c = .ok (some o) ↔ Ordered c a b o := by
  constructor
  · intro h
    unfold compare at h
    split_ifs at h with hnull
    · simp at h
    · split at h
      next x y ha hb =>
        simp only [Except.ok.injEq, Option.some.injEq] at h
        exact h ▸ .integers ha hb
      · split at h
        next x y ha hb =>
          obtain ⟨hx, hy, rfl⟩ := compareFloats_eq_ok_iff.mp (map_some_eq_ok.mp h)
          exact .floats ha hb hx hy
        · split at h
          case h_2 x y _ _ =>
            obtain ⟨hc, rfl⟩ := Decimal.compareDecimals_eq_ok_iff.mp (map_some_eq_ok.mp h)
            exact .decimal hc
          case h_12 => simp [bug] at h
          all_goals
            simp only [Except.ok.injEq, Option.some.injEq] at h
            subst h
            constructor
  · intro h
    cases h with
    | @integers a b x y ha hb =>
      have hna : a.isNull = false := by cases a <;> simp_all [integerAsI64, Value.isNull]
      have hnb : b.isNull = false := by cases b <;> simp_all [integerAsI64, Value.isNull]
      simp [compare, ha, hb, hna, hnb]
    | @floats a b x y ha hb hx hy =>
      have hna : a.isNull = false ∧ integerAsI64 a = none := by
        cases a <;> simp_all [floatAsF64, integerAsI64, Value.isNull]
      have hnb : b.isNull = false := by cases b <;> simp_all [floatAsF64, Value.isNull]
      simp [compare, ha, hb, hna, hnb, compareFloats, hx, hy, Except.map]
    | @decimal x y hc =>
      have := Decimal.compareDecimals_eq_ok_iff.mpr ⟨hc, rfl⟩
      simp [compare, Value.isNull, integerAsI64, floatAsF64, this, Except.map]
    | _ => rfl

instance : TransCmp compareBytes := inferInstanceAs (TransCmp (padCmp Ord.compare 0))

instance : TransCmp compareGuids :=
  transCmp_comap (List.compareLex Ord.compare) fun x : Vector UInt8 16 => guidOrder.map x.get

instance : TransCmp compareDateTime :=
  inferInstanceAs (TransCmp (compareLex (compareOn DateTime.days)
    (compareOn DateTime.ticks300th)))

instance : TransCmp compareDateTime2 :=
  inferInstanceAs (TransCmp (compareLex (compareOn fun x : DateTime2 => x.date.days)
    (compareOn fun x : DateTime2 => x.time.ticks100ns)))

lemma Ordered.swap (h : Ordered c a b o) : Ordered c b a o.swap := by
  cases h with
  | @integers _ _ x y ha hb => exact swap_of_transCmp Ord.compare x y ▸ .integers hb ha
  | @floats _ _ x y ha hb hx hy =>
    exact swap_of_transCmp Ord.compare (f64Order x) (f64Order y) ▸ .floats hb ha hy hx
  | bit x y => exact swap_of_transCmp Ord.compare x y ▸ .bit y x
  | @decimal x y h => exact swap_of_transCmp Ord.compare x.units y.units ▸ .decimal h.symm
  | money x y => exact swap_of_transCmp Ord.compare x y ▸ .money y x
  | string x y => exact swap_of_transCmp c.compare x y ▸ .string y x
  | bytes x y => exact swap_of_transCmp compareBytes x y ▸ .bytes y x
  | guid x y => exact swap_of_transCmp compareGuids x y ▸ .guid y x
  | date x y => exact swap_of_transCmp Ord.compare x.days y.days ▸ .date y x
  | time x y => exact swap_of_transCmp Ord.compare x.ticks100ns y.ticks100ns ▸ .time y x
  | dateTime x y => exact swap_of_transCmp compareDateTime x y ▸ .dateTime y x
  | dateTime2 x y => exact swap_of_transCmp compareDateTime2 x y ▸ .dateTime2 y x
  | dateTimeOffset x y => exact swap_of_transCmp compareDateTime2 x.utc y.utc ▸ .dateTimeOffset y x

lemma integerAsI64_eq_some {x : ℤ} (ha : integerAsI64 a = some x) (h : Ordered c a b o) :
    ∃ y, integerAsI64 b = some y ∧ o = Ord.compare x y := by
  cases h with
  | integers ha' hb =>
    obtain rfl := Option.mem_unique ha ha'
    exact ⟨_, hb, rfl⟩
  | floats ha' => cases a <;> simp [integerAsI64, floatAsF64] at ha ha'
  | _ => simp [integerAsI64] at ha

lemma floatAsF64_eq_some {x : BitVec 64} (ha : floatAsF64 a = some x) (h : Ordered c a b o) :
    ∃ y, floatAsF64 b = some y ∧ f64IsNan x = false ∧ f64IsNan y = false ∧
      o = Ord.compare (f64Order x) (f64Order y) := by
  cases h with
  | floats ha' hb hx hy =>
    obtain rfl := Option.mem_unique ha ha'
    exact ⟨_, hb, hx, hy, rfl⟩
  | integers ha' => cases a <;> simp [integerAsI64, floatAsF64] at ha ha'
  | _ => simp [floatAsF64] at ha

variable {o₂ o₁ : Ordering}

lemma Ordered.trans (hab : Ordered c a b o₁) (hbd : Ordered c b d o₂)
    (h₁ : o₁ ≠ .gt) (h₂ : o₂ ≠ .gt) : Ordered c a d (o₁.then o₂) := by
  cases hab with
  | integers ha hb =>
    obtain ⟨z, hd, rfl⟩ := integerAsI64_eq_some hb hbd
    exact then_of_transCmp Ord.compare h₁ h₂ ▸ .integers ha hd
  | floats ha hb hx hy =>
    obtain ⟨z, hd, -, hz, rfl⟩ := floatAsF64_eq_some hb hbd
    exact then_of_transCmp Ord.compare h₁ h₂ ▸ .floats ha hd hx hz
  | @decimal x y hxy =>
    cases hbd with
    | @decimal _ z hyz =>
      have hle : x.units ≤ y.units ∧ y.units ≤ z.units :=
        ⟨compare_le_iff_le.mp h₁, compare_le_iff_le.mp h₂⟩
      exact then_of_transCmp Ord.compare h₁ h₂ ▸ .decimal (hxy.trans hyz hle.1 hle.2)
    | integers hb => simp [integerAsI64] at hb
    | floats hb => simp [floatAsF64] at hb
  | _ =>
    cases hbd with
    | integers hb => simp [integerAsI64] at hb
    | floats hb => simp [floatAsF64] at hb
    | _ =>
      rw [← then_of_transCmp _ h₁ h₂]
      constructor

/-- **An answer of `compare` can be read the other way round.** -/
theorem compare_swap (h : compare a b c = .ok (some o)) : compare b a c = .ok (some o.swap) :=
  compare_eq_ok_iff.mpr (compare_eq_ok_iff.mp h).swap

/-- **Two answers of `compare` that go the same way compose.** -/
theorem compare_trans (hab : compare a b c = .ok (some o₁))
    (hbd : compare b d c = .ok (some o₂)) (h₁ : o₁ ≠ .gt) (h₂ : o₂ ≠ .gt) :
    compare a d c = .ok (some (o₁.then o₂)) :=
  compare_eq_ok_iff.mpr ((compare_eq_ok_iff.mp hab).trans (compare_eq_ok_iff.mp hbd) h₁ h₂)

/-- The values `compare` accepts next to themselves: no NaN, no decimal out of range. -/
def Value.selfComparable : Value → Bool
  | .f64 x => !f64IsNan x
  | .f32 x => !f64IsNan (f64OfF32 x)
  | .decimal d => d.mantissa.toInt == 0 || d.scale.toNat ≤ 38
  | _ => true

/-- The families of the table of `compare`. -/
inductive Family where
  | bit | integer | decimal | float | money | string | bytes
  | date | time | dateTime | dateTime2 | dateTimeOffset | guid
  deriving DecidableEq, Repr

/-- The family of a value; `NULL` has none. -/
def Value.family : Value → Option Family
  | .null => none
  | .bit _ => some .bit
  | .i8 _ | .i16 _ | .i32 _ | .i64 _ => some .integer
  | .decimal _ => some .decimal
  | .f64 _ | .f32 _ => some .float
  | .money _ => some .money
  | .string _ => some .string
  | .bytes _ => some .bytes
  | .date _ => some .date
  | .time _ => some .time
  | .dateTime _ => some .dateTime
  | .dateTime2 _ => some .dateTime2
  | .dateTimeOffset _ => some .dateTimeOffset
  | .guid _ => some .guid

lemma integerAsI64_isSome_of_family (h : a.family = some .integer) :
    ∃ x, integerAsI64 a = some x := by
  cases a <;> simp_all [Value.family, integerAsI64]

lemma floatAsF64_of_family (h : a.family = some .float) (hs : a.selfComparable) :
    ∃ x, floatAsF64 a = some x ∧ f64IsNan x = false := by
  cases a with
  | f64 x => exact ⟨x, rfl, by
      simpa only [Value.selfComparable, Bool.not_eq_true_eq_eq_false] using hs⟩
  | f32 x => exact ⟨f64OfF32 x, rfl, by
      simpa only [Value.selfComparable, Bool.not_eq_true_eq_eq_false] using hs⟩
  | _ => simp [Value.family] at h

/-- **Two self-comparable values of one family are always compared.** -/
theorem compare_total (ha : a.selfComparable) (hb : b.selfComparable)
    (hnull : a ≠ .null) (hfam : a.family = b.family) (c : Collation) :
    ∃ o, compare a b c = .ok (some o) := by
  obtain ⟨f, hf⟩ : ∃ f, a.family = some f := by
    cases a with
    | null => exact absurd rfl hnull
    | _ => exact ⟨_, rfl⟩
  have hf' : b.family = some f := hfam ▸ hf
  cases f with
  | integer =>
    obtain ⟨x, hx⟩ := integerAsI64_isSome_of_family hf
    obtain ⟨y, hy⟩ := integerAsI64_isSome_of_family hf'
    exact ⟨_, compare_eq_ok_iff.mpr (.integers hx hy)⟩
  | float =>
    obtain ⟨x, hx, hnx⟩ := floatAsF64_of_family hf ha
    obtain ⟨y, hy, hny⟩ := floatAsF64_of_family hf' hb
    exact ⟨_, compare_eq_ok_iff.mpr (.floats hx hy hnx hny)⟩
  | decimal =>
    cases a <;> simp [Value.family] at hf
    cases b <;> simp [Value.family] at hf'
    rename_i x y
    refine ⟨_, compare_eq_ok_iff.mpr (.decimal ?_)⟩
    simp only [Value.selfComparable, Bool.or_eq_true, beq_iff_eq, decide_eq_true_eq] at ha hb
    exact .of_range ha hb
  | _ =>
    cases a <;> simp [Value.family] at hf
    cases b <;> simp [Value.family] at hf'
    exact ⟨_, rfl⟩

/-- **A value is equal to itself exactly when it is self-comparable.** -/
theorem compare_self (hnull : a ≠ .null) (c : Collation) :
    compare a a c = .ok (some .eq) ↔ a.selfComparable := by
  constructor
  · intro h
    have h := compare_eq_ok_iff.mp h
    cases a with
    | f64 x | f32 x =>
      obtain ⟨_, _, hx, _⟩ := floatAsF64_eq_some rfl h
      rw [Value.selfComparable, hx]
      rfl
    | decimal d =>
      have hd : d.Compatible d := by
        generalize Ordering.eq = o at h
        cases h with
        | decimal hd => exact hd
        | integers ha | floats ha => cases ha
      simp only [Decimal.Compatible, ne_eq, not_true_eq_false, and_self, false_or,
        Int.sign_eq_zero_iff_zero] at hd
      simpa only [Value.selfComparable, Bool.or_eq_true, beq_iff_eq, decide_eq_true_eq] using hd
    | _ => rfl
  · intro h
    obtain ⟨o, ho⟩ := compare_total h h hnull rfl c
    have hswap := compare_swap ho
    rw [ho] at hswap ⊢
    cases o <;> simp_all [Ordering.swap]

lemma compare_ne_none (ha : a ≠ .null) (hb : b ≠ .null) : compare a b c ≠ .ok none := by
  have hna : a.isNull = false := by cases a <;> first | exact absurd rfl ha | rfl
  have hnb : b.isNull = false := by cases b <;> first | exact absurd rfl hb | rfl
  have hmap : ∀ r : SqlResult Ordering, r.map some ≠ .ok none := by
    intro r
    cases r <;> simp [Except.map]
  intro h
  unfold compare at h
  simp only [hna, hnb, Bool.or_self, Bool.false_eq_true, if_false] at h
  split at h
  · simp at h
  · split at h
    · exact hmap _ h
    · split at h
      case h_2 => exact hmap _ h
      all_goals simp [bug] at h

lemma compareDecimals_uncorrupted (x y : Decimal) : Uncorrupted (compareDecimals x y) := by
  have hpow : ∀ e, Uncorrupted (pow10 e) := by
    intro e
    rw [pow10]
    split_ifs
    · exact .ok _
    · exact .bug _
  have hsplit : ∀ d m, Uncorrupted (splitDecimal d m) := by
    intro d m
    refine .bind (hpow _) fun _ _ => .bind (hpow _) fun _ _ => ?_
    dsimp only
    split_ifs
    · exact .ok _
    · exact .bug _
  rw [compareDecimals]
  split_ifs
  iterate 2 exact .ok _
  all_goals
    exact .bind (.bind (hsplit _ _) fun _ _ => .bind (hsplit _ _) fun _ _ => .ok _) fun _ _ => .ok _

lemma compare_uncorrupted (a b : Value) (c : Collation) : Uncorrupted (compare a b c) := by
  unfold compare
  split_ifs
  · exact .ok _
  · split
    · exact .ok _
    · split
      next x y _ _ =>
        refine .map _ ?_
        rw [compareFloats]
        split_ifs
        · exact .bug _
        · exact .ok _
      next =>
        split
        case h_2 => exact .map _ (compareDecimals_uncorrupted _ _)
        case h_12 => exact .bug _
        all_goals exact .ok _

end Families

end VaubanDB
